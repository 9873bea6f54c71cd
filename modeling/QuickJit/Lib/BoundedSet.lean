import Mathlib

/-
  Bounded sets of observations.

  A cell lists the distinct values it has seen, in the order they came, as long
  as there are at most `limit` of them. One more and it is megamorphic: it
  forgets the list and takes no notice of anything that follows.

  `Holds limit values s` says what a cell is after it has seen `values`. It
  mentions them as a set only, so neither their order nor how often one came
  matters (`Holds.congr`, `Holds.equiv`), and seeing one of them again changes
  nothing (`Holds.observe_mem`). A cell that changes changes its length or its
  flag (`observe_shape`), and a row of cells one of its two totals
  (`observeSlots_shape`).
-/

namespace QuickJit

universe u

variable {α : Type u}

@[ext] structure BoundedSet (α : Type u) where
  observations : List α
  megamorphic : Bool
  deriving DecidableEq, Repr

namespace BoundedSet

/-- A cell that has seen nothing. -/
def empty : BoundedSet α := ⟨[], false⟩

/-- How many values are listed, and the flag. -/
def shape (s : BoundedSet α) : Nat × Bool := (s.observations.length, s.megamorphic)

variable [DecidableEq α]

/-- See one value. -/
def observe (limit : Nat) (s : BoundedSet α) (a : α) : BoundedSet α :=
  if s.megamorphic = true ∨ a ∈ s.observations then s
  else if limit ≤ s.observations.length then ⟨[], true⟩
  else { s with observations := s.observations ++ [a] }

theorem observe_cases (limit : Nat) (s : BoundedSet α) (a : α) :
    (s.observe limit a = s ∧ (s.megamorphic = true ∨ a ∈ s.observations)) ∨
    (s.observe limit a = ⟨[], true⟩ ∧ s.megamorphic = false ∧ a ∉ s.observations ∧
      limit ≤ s.observations.length) ∨
    (s.observe limit a = ⟨s.observations ++ [a], false⟩ ∧ s.megamorphic = false ∧
      a ∉ s.observations ∧ s.observations.length < limit) := by
  obtain ⟨observations, megamorphic⟩ := s
  unfold observe
  split
  case isTrue h => exact .inl ⟨rfl, h⟩
  case isFalse h =>
    obtain ⟨hmega, hmem⟩ := not_or.mp h
    have hfalse := Bool.eq_false_iff.mpr hmega
    split
    case isTrue hle => exact .inr (.inl ⟨rfl, hfalse, hmem, hle⟩)
    case isFalse hlt =>
      dsimp only at hfalse
      subst hfalse
      exact .inr (.inr ⟨rfl, rfl, hmem, Nat.lt_of_not_le hlt⟩)

/-- A change shows in the shape. -/
theorem observe_shape {limit : Nat} {s : BoundedSet α} {a : α} :
    (s.observe limit a).shape = s.shape ↔ s.observe limit a = s := by
  refine ⟨fun h => ?_, fun h => congrArg shape h⟩
  rcases observe_cases limit s a with ⟨hs, -⟩ | ⟨hs, hmega, -, -⟩ | ⟨hs, -, -, -⟩
  · exact hs
  · rw [hs] at h
    have hflag := congrArg Prod.snd h
    simp [shape, hmega] at hflag
  · rw [hs] at h
    simp [shape] at h

/-! ## What a cell holds -/

/-- The cell after it has seen the values. -/
structure Holds (limit : Nat) (values : List α) (s : BoundedSet α) : Prop where
  megamorphic_iff : s.megamorphic = true ↔ limit < values.toFinset.card
  forgets : s.megamorphic = true → s.observations = []
  nodup : s.observations.Nodup
  mem_iff : s.megamorphic = false → ∀ a, a ∈ s.observations ↔ a ∈ values

theorem holds_empty (limit : Nat) : Holds limit ([] : List α) empty where
  megamorphic_iff := by simp [empty]
  forgets _ := rfl
  nodup := List.nodup_nil
  mem_iff _ _ := Iff.rfl

namespace Holds

variable {limit : Nat} {values values' : List α} {s : BoundedSet α} {a : α}

variable (h : s.Holds limit values)

include h

theorem toFinset_eq (hmega : s.megamorphic = false) :
    s.observations.toFinset = values.toFinset := by
  ext a
  simp [h.mem_iff hmega a]

theorem length_eq (hmega : s.megamorphic = false) :
    s.observations.length = values.toFinset.card := by
  rw [← h.toFinset_eq hmega, List.toFinset_card_of_nodup h.nodup]

theorem observations_ne (hne : values ≠ []) (hmega : ¬s.megamorphic = true) :
    s.observations ≠ [] := by
  obtain ⟨a, ha⟩ := List.exists_mem_of_ne_nil values hne
  exact List.ne_nil_of_mem ((h.mem_iff (Bool.eq_false_iff.mpr hmega) a).mpr ha)

/-- Only the set of values matters. -/
theorem congr (hvalues : ∀ a, a ∈ values ↔ a ∈ values') :
    s.Holds limit values' := by
  have hset : values.toFinset = values'.toFinset := by
    ext a
    simpa using hvalues a
  exact ⟨hset ▸ h.megamorphic_iff, h.forgets, h.nodup,
    fun hmega a => (h.mem_iff hmega a).trans (hvalues a)⟩

theorem observe (a : α) :
    (s.observe limit a).Holds limit (a :: values) := by
  have hset : (a :: values).toFinset = insert a values.toFinset := List.toFinset_cons
  rcases observe_cases limit s a with ⟨hs, hseen⟩ | ⟨hs, hmega, hmem, hle⟩ | ⟨hs, hmega, hmem, hlt⟩
  · rw [hs]
    rcases hseen with hmega | hmem
    · have hcard := Finset.card_le_card (Finset.subset_insert a values.toFinset)
      have hmore := h.megamorphic_iff.mp hmega
      refine ⟨⟨fun _ => by rw [hset]; omega, fun _ => hmega⟩, h.forgets, h.nodup, fun hfalse => ?_⟩
      rw [hmega] at hfalse
      cases hfalse
    · -- the value is listed, so the cell is not megamorphic
      have hmega : s.megamorphic = false := by
        refine Bool.eq_false_iff.mpr fun hmega => ?_
        rw [h.forgets hmega] at hmem
        cases hmem
      have hold := (h.mem_iff hmega a).mp hmem
      exact h.congr fun b => by simpa using fun hb => hb ▸ hold
  · have hfresh : a ∉ values.toFinset := by simpa [← h.mem_iff hmega a] using hmem
    rw [h.length_eq hmega] at hle
    rw [hs]
    refine ⟨⟨fun _ => ?_, fun _ => rfl⟩, fun _ => rfl, List.nodup_nil, nofun⟩
    rw [hset, Finset.card_insert_of_notMem hfresh]
    omega
  · have hfresh : a ∉ values.toFinset := by simpa [← h.mem_iff hmega a] using hmem
    rw [h.length_eq hmega] at hlt
    rw [hs]
    refine ⟨⟨nofun, fun hmore => ?_⟩, nofun, ?_, ?_⟩
    · rw [hset, Finset.card_insert_of_notMem hfresh] at hmore
      omega
    · exact List.nodup_append.mpr ⟨h.nodup, List.nodup_singleton a, fun b hb c hc heq => by
        rw [List.mem_singleton.mp hc] at heq
        exact hmem (heq ▸ hb)⟩
    · intro _ b
      simp [h.mem_iff hmega b, or_comm]

/-- A value that has been seen is no news. -/
theorem observe_mem (ha : a ∈ values) : s.observe limit a = s := by
  refine if_pos ?_
  cases hmega : s.megamorphic with
  | true => exact .inl rfl
  | false => exact .inr ((h.mem_iff hmega a).mpr ha)

end Holds

/-! ## Rows of cells -/

/-- See a row of values, position by position; missing cells are added. -/
def observeSlots (limit : Nat) (slots : List (BoundedSet α)) (values : List α) :
    List (BoundedSet α) :=
  let slots := slots ++ List.replicate (values.length - slots.length) empty
  List.zipWith (observe limit) slots values ++ slots.drop values.length

/-- How many values are listed and how many cells are megamorphic. -/
def slotsShape (slots : List (BoundedSet α)) : Nat × Nat :=
  ((slots.map fun s => s.observations.length).sum, slots.countP BoundedSet.megamorphic)

variable {limit : Nat} {slots : List (BoundedSet α)} {row : List α} {rows rows' : List (List α)}

@[simp] theorem observeSlots_nil (limit : Nat) (slots : List (BoundedSet α)) :
    observeSlots limit slots [] = slots := by
  simp [observeSlots]

@[simp] theorem observeSlots_new (limit : Nat) (a : α) (row : List α) :
    observeSlots limit [] (a :: row) = empty.observe limit a :: observeSlots limit [] row := by
  simp [observeSlots, List.replicate_succ]

@[simp] theorem observeSlots_cons (limit : Nat) (s : BoundedSet α) (slots : List (BoundedSet α))
    (a : α) (row : List α) :
    observeSlots limit (s :: slots) (a :: row) =
      s.observe limit a :: observeSlots limit slots row := by
  simp [observeSlots]

theorem length_observeSlots : ∀ (slots : List (BoundedSet α)) (row : List α),
    (observeSlots limit slots row).length = max slots.length row.length
  | slots, [] => by simp
  | [], a :: row => by simp [length_observeSlots [] row]
  | s :: slots, a :: row => by simp [length_observeSlots slots row]

theorem getElem?_observeSlots : ∀ (slots : List (BoundedSet α)) (row : List α) (i : Nat),
    (observeSlots limit slots row)[i]? =
      match row[i]? with
      | some a => some ((slots[i]?.getD empty).observe limit a)
      | none => slots[i]?
  | slots, [], i => by simp
  | [], a :: row, 0 => by simp
  | [], a :: row, i + 1 => by simpa using getElem?_observeSlots [] row i
  | s :: slots, a :: row, 0 => by simp
  | s :: slots, a :: row, i + 1 => by simpa using getElem?_observeSlots slots row i

/-- Flags are never lowered; while none is raised no list gets shorter; and if
neither happens nothing has changed. -/
theorem observeSlots_totals (limit : Nat) : ∀ (slots : List (BoundedSet α)) (row : List α),
    (slotsShape slots).2 ≤ (slotsShape (observeSlots limit slots row)).2 ∧
      ((slotsShape (observeSlots limit slots row)).2 = (slotsShape slots).2 →
        (slotsShape slots).1 ≤ (slotsShape (observeSlots limit slots row)).1 ∧
        ((slotsShape (observeSlots limit slots row)).1 = (slotsShape slots).1 →
          (observeSlots limit slots row).length = slots.length →
            observeSlots limit slots row = slots))
  | slots, [] => by simp
  | [], a :: row => by simp [slotsShape]
  | s :: slots, a :: row => by
    obtain ⟨hflags, hrest⟩ := observeSlots_totals limit slots row
    rw [observeSlots_cons]
    simp only [slotsShape, List.map_cons, List.sum_cons, List.countP_cons, List.length_cons] at *
    rcases observe_cases limit s a with ⟨hs, -⟩ | ⟨hs, hmega, -, -⟩ | ⟨hs, hmega, -, -⟩
    · rw [hs]
      refine ⟨by omega, fun heq => ?_⟩
      obtain ⟨hsum, hsame⟩ := hrest (by omega)
      refine ⟨by omega, fun htotal hlength => ?_⟩
      rw [hsame (by omega) (by omega)]
    · -- a raised flag
      rw [hs, hmega]
      refine ⟨by simp; omega, fun heq => ?_⟩
      simp only [if_true, Bool.false_eq_true, if_false] at heq
      omega
    · -- a longer list
      rw [hs, hmega]
      simp only [Bool.false_eq_true, if_false, List.length_append, List.length_singleton]
      refine ⟨by omega, fun heq => ?_⟩
      obtain ⟨hsum, -⟩ := hrest (by omega)
      exact ⟨by omega, fun htotal => by omega⟩

/-- A change shows in the number of cells or in one of the totals. -/
theorem observeSlots_shape :
    ((observeSlots limit slots row).length = slots.length ∧
      slotsShape (observeSlots limit slots row) = slotsShape slots) ↔
      observeSlots limit slots row = slots := by
  refine ⟨?_, fun h => by rw [h]; exact ⟨rfl, rfl⟩⟩
  rintro ⟨hlength, hshape⟩
  obtain ⟨-, hrest⟩ := observeSlots_totals limit slots row
  exact (hrest (congrArg Prod.snd hshape)).2 (congrArg Prod.fst hshape) hlength

/-- The cells after they have seen the rows. -/
structure SlotsHold (limit : Nat) (rows : List (List α)) (slots : List (BoundedSet α)) : Prop where
  lt_length_iff : ∀ n, n < slots.length ↔ ∃ row ∈ rows, n < row.length
  slot : ∀ (i : Nat) (s : BoundedSet α), slots[i]? = some s →
    s.Holds limit (rows.filterMap fun row => row[i]?)

theorem slotsHold_nil (limit : Nat) : SlotsHold limit ([] : List (List α)) [] :=
  ⟨by simp, by simp⟩

namespace SlotsHold

/-- The cell at a position, also when there is none yet. -/
theorem getD (h : SlotsHold limit rows slots) (i : Nat) :
    (slots[i]?.getD empty).Holds limit (rows.filterMap fun row => row[i]?) := by
  cases hi : slots[i]? with
  | some s => exact h.slot i s hi
  | none =>
    have hnone : rows.filterMap (fun row => row[i]?) = [] := by
      refine List.filterMap_eq_nil_iff.mpr fun row hrow => ?_
      refine List.getElem?_eq_none (Nat.not_lt.mp fun hlt => ?_)
      have hi' := List.getElem?_eq_none_iff.mp hi
      exact absurd ((h.lt_length_iff i).mpr ⟨row, hrow, hlt⟩) (Nat.not_lt.mpr hi')
    rw [hnone]
    exact holds_empty limit

theorem observe (h : SlotsHold limit rows slots) (row : List α) :
    SlotsHold limit (row :: rows) (observeSlots limit slots row) := by
  refine ⟨fun n => ?_, fun i s hs => ?_⟩
  · rw [length_observeSlots, lt_max_iff, h.lt_length_iff n, List.exists_mem_cons_iff, or_comm]
  · rw [getElem?_observeSlots] at hs
    cases ha : row[i]? with
    | some a =>
      rw [ha] at hs
      cases hs
      rw [List.filterMap_cons, ha]
      exact (h.getD i).observe a
    | none =>
      rw [ha] at hs
      rw [List.filterMap_cons, ha]
      exact h.slot i s hs

theorem congr (h : SlotsHold limit rows slots) (hrows : ∀ row, row ∈ rows ↔ row ∈ rows') :
    SlotsHold limit rows' slots := by
  refine ⟨fun n => ?_, fun i s hs => (h.slot i s hs).congr fun a => ?_⟩
  · simp only [h.lt_length_iff n, hrows]
  · simp only [List.mem_filterMap, hrows]

end SlotsHold

end BoundedSet

end QuickJit
