import Mathlib

/-
  Little-endian words and writes into a buffer.

  `leBytes w n` are the `w` low bytes of a number and `leNat` reads bytes back;
  nothing is lost of a number below `256 ^ w`. `overwrite` replaces a range of a
  list and `overwriteAll` several, one after the other: what lies outside all
  ranges stays, and ranges that do not overlap keep what was written to each.
-/

namespace QuickJit

/-! ## Words -/

/-- The `w` low bytes of a number, the least significant first. -/
def leBytes : Nat → Nat → List UInt8
  | 0, _ => []
  | w + 1, n => UInt8.ofNat n :: leBytes w (n / 256)

/-- The number that bytes stand for. -/
def leNat (bytes : List UInt8) : Nat := Nat.ofDigits 256 (bytes.map UInt8.toNat)

@[simp] theorem length_leBytes : ∀ w n : Nat, (leBytes w n).length = w
  | 0, _ => rfl
  | w + 1, n => by rw [leBytes, List.length_cons, length_leBytes w]

theorem leNat_cons (b : UInt8) (bytes : List UInt8) :
    leNat (b :: bytes) = b.toNat + 256 * leNat bytes := by
  simp [leNat, Nat.ofDigits_cons]

theorem leNat_leBytes : ∀ w n : Nat, leNat (leBytes w n) = n % 256 ^ w
  | 0, n => by simp [leBytes, leNat, Nat.mod_one]
  | w + 1, n => by
    have hbyte : (UInt8.ofNat n).toNat = n % 256 := UInt8.toNat_ofNat'
    rw [leBytes, leNat_cons, leNat_leBytes w, hbyte, Nat.pow_succ', Nat.mod_mul]

/-- A number that fits is read back. -/
theorem leNat_leBytes_of_lt {w n : Nat} (h : n < 256 ^ w) : leNat (leBytes w n) = n := by
  rw [leNat_leBytes, Nat.mod_eq_of_lt h]

/-! ## Buffers -/

section Buffer

variable {α : Type*} {buffer new : List α} {offset width : Nat}

/-- The elements of a range. -/
def slice (buffer : List α) (offset width : Nat) : List α := (buffer.drop offset).take width

/-- Replace a range. -/
def overwrite (buffer : List α) (offset : Nat) (new : List α) : List α :=
  buffer.take offset ++ new ++ buffer.drop (offset + new.length)

/-- One write: where, and what. -/
structure Write (α : Type*) where
  offset : Nat
  content : List α

/-- The position just behind a write. -/
def Write.stop (w : Write α) : Nat := w.offset + w.content.length

/-- The two do not touch a common position. -/
def Write.Apart (w w' : Write α) : Prop := w.stop ≤ w'.offset ∨ w'.stop ≤ w.offset

/-- Several writes, in order. -/
def overwriteAll (buffer : List α) (writes : List (Write α)) : List α :=
  writes.foldl (fun buffer w => overwrite buffer w.offset w.content) buffer

theorem getElem?_slice (buffer : List α) (offset width i : Nat) :
    (slice buffer offset width)[i]? = if i < width then buffer[offset + i]? else none := by
  rw [slice, List.getElem?_take, List.getElem?_drop]

theorem length_overwrite (h : offset + new.length ≤ buffer.length) :
    (overwrite buffer offset new).length = buffer.length := by
  simp only [overwrite, List.length_append, List.length_take, List.length_drop]
  omega

theorem getElem?_overwrite (h : offset ≤ buffer.length) (i : Nat) :
    (overwrite buffer offset new)[i]? =
      if offset ≤ i ∧ i < offset + new.length then new[i - offset]? else buffer[i]? := by
  have htake : (buffer.take offset).length = offset := by
    rw [List.length_take, Nat.min_eq_left h]
  rw [overwrite, List.append_assoc]
  by_cases hbefore : i < offset
  · rw [List.getElem?_append_left (by omega), List.getElem?_take_of_lt hbefore, if_neg (by omega)]
  · rw [List.getElem?_append_right (by omega), htake]
    by_cases hinside : i < offset + new.length
    · rw [List.getElem?_append_left (by omega), if_pos ⟨Nat.not_lt.mp hbefore, hinside⟩]
    · rw [List.getElem?_append_right (by omega), List.getElem?_drop, if_neg (by omega)]
      congr 1
      omega

theorem slice_overwrite_self (h : offset ≤ buffer.length) :
    slice (overwrite buffer offset new) offset new.length = new := by
  refine List.ext_getElem? fun i => ?_
  rw [getElem?_slice, getElem?_overwrite h]
  split
  case isTrue hi => rw [if_pos ⟨by omega, by omega⟩, Nat.add_sub_cancel_left]
  case isFalse hi => rw [List.getElem?_eq_none (Nat.not_lt.mp hi)]

/-- All writes lie inside the buffer. -/
def FitsIn (buffer : List α) (writes : List (Write α)) : Prop :=
  ∀ w ∈ writes, w.stop ≤ buffer.length

theorem FitsIn.tail {w : Write α} {writes : List (Write α)} (h : FitsIn buffer (w :: writes)) :
    FitsIn (overwrite buffer w.offset w.content) writes := by
  intro w' hw'
  rw [length_overwrite (h w List.mem_cons_self)]
  exact h w' (List.mem_cons_of_mem w hw')

theorem length_overwriteAll : ∀ {writes : List (Write α)} {buffer : List α},
    FitsIn buffer writes → (overwriteAll buffer writes).length = buffer.length
  | [], _, _ => rfl
  | w :: _, _, h => (length_overwriteAll h.tail).trans (length_overwrite (h w List.mem_cons_self))

theorem overwriteAll_append (buffer : List α) (writes rest : List (Write α)) :
    overwriteAll buffer (writes ++ rest) = overwriteAll (overwriteAll buffer writes) rest :=
  List.foldl_append

/-- What no write covers stays. -/
theorem getElem?_overwriteAll {i : Nat} : ∀ {writes : List (Write α)} {buffer : List α},
    FitsIn buffer writes → (∀ w ∈ writes, i < w.offset ∨ w.stop ≤ i) →
      (overwriteAll buffer writes)[i]? = buffer[i]?
  | [], _, _, _ => rfl
  | w :: writes, buffer, h, houtside => by
    have hw := h w List.mem_cons_self
    have hi := houtside w List.mem_cons_self
    have hoffset : w.offset ≤ buffer.length := Nat.le_trans (Nat.le_add_right _ _) hw
    have ih := getElem?_overwriteAll h.tail fun w' hw' => houtside w' (List.mem_cons_of_mem w hw')
    rw [getElem?_overwrite hoffset, if_neg (by unfold Write.stop at hi; omega)] at ih
    exact ih

/-- Writes that are pairwise apart all last. -/
theorem slice_overwriteAll : ∀ {writes : List (Write α)} {buffer : List α},
    FitsIn buffer writes → writes.Pairwise Write.Apart → ∀ w ∈ writes,
      slice (overwriteAll buffer writes) w.offset w.content.length = w.content
  | [], _, _, _, _, hw => by cases hw
  | first :: writes, buffer, h, hapart, w, hw => by
    rw [List.pairwise_cons] at hapart
    rcases List.mem_cons.mp hw with rfl | hw
    · have hoffset : w.offset ≤ buffer.length :=
        Nat.le_trans (Nat.le_add_right _ _) (h w List.mem_cons_self)
      -- the later writes leave its range alone
      refine Eq.trans (List.ext_getElem? fun i => ?_) (slice_overwrite_self hoffset)
      rw [getElem?_slice, getElem?_slice]
      split
      case isTrue hi =>
        refine getElem?_overwriteAll h.tail fun w' hw' => ?_
        have hdisjoint := hapart.1 w' hw'
        unfold Write.Apart Write.stop at hdisjoint
        unfold Write.stop
        omega
      case isFalse => rfl
    · exact slice_overwriteAll h.tail hapart.2 w hw

end Buffer

end QuickJit
