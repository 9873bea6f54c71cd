import QuickJit.Lib.Bytes
import QuickJit.Lib.Related
import QuickJit.Runtime.Artifact

/-
  Relocating staged code (`platform/mod.rs`, `WritableCode::apply_relocations`).

  Every relocation is checked and encoded against the bytes as they are before
  the batch; only when all have passed are the fields written. `stage` is the
  body of the first loop, `applyRelocations` the whole function. What a field
  means is stated apart from how it is encoded: `value` is the number a
  relocation stands for, `Representable` says which numbers its field can hold
  and `decode` reads a field back.

  The source computes with `i128`, which holds every sum of a `u64`, an `i64`
  and an address, so the integers here are unbounded. The eight-byte array the
  source stages is cut to the width it is written with. Staging reads only its
  own field, so batches that do not overlap can be split.
-/

namespace QuickJit

open Outcome

inductive RelocationKind where
  | abs4
  | abs8
  | x86PCRel4
  | x86CallPCRel4
  | x86CallPLTRel4
  | x86GOTPCRel4
  | x86SecRel
  | arm32Call
  | arm64Call
  | s390xPCRel32Dbl
  | s390xPLTRel32Dbl
  | elfX86_64TlsGd
  | machOX86_64Tlv
  | machOAarch64TlsAdrPage21
  | machOAarch64TlsAdrPageOff12
  | aarch64TlsDescAdrPage21
  | aarch64TlsDescLd64Lo12
  | aarch64TlsDescAddLo12
  | aarch64TlsDescCall
  | aarch64AdrGotPage21
  | aarch64Ld64GotLo12Nc
  | riscvCallPlt
  | riscvTlsGdHi20
  | riscvPCRelLo12I
  | riscvGotHi20
  | s390xTlsGd64
  | s390xTlsGdCall
  | pulleyCallIndirectHost
  deriving DecidableEq, Repr

structure ResolvedRelocation where
  offset : UInt32
  kind : RelocationKind
  target : UInt64
  addend : Int64
  deriving DecidableEq

/-- The errors `apply_relocations` returns. -/
inductive CodeMemoryError where
  | relocationOutOfBounds (offset width allocationLen : Nat)
  | relocationValueOutOfRange (offset : Nat) (target : UInt64) (addend : Int64)
  | unsupportedRelocationKind (kind : RelocationKind)
  deriving DecidableEq

/-- `WritableCode`: the staged bytes and the address they will be mapped at. -/
structure WritableCode where
  bytes : List UInt8
  address : UInt64
  deriving DecidableEq

/-- The bytes a relocation of this kind patches. -/
def RelocationKind.width : RelocationKind → Option Nat
  | .abs8 => some 8
  | .abs4 | .x86PCRel4 | .x86CallPCRel4 | .x86CallPLTRel4 | .x86GOTPCRel4 | .arm64Call => some 4
  | _ => none

/-- A 32-bit word of the buffer. -/
def wordOf (bytes : List UInt8) : BitVec 32 := BitVec.ofNat 32 (leNat bytes)

variable {relocations : List ResolvedRelocation} {code : WritableCode}

namespace ResolvedRelocation

/-- `target + addend`. -/
def absolute (r : ResolvedRelocation) : Int := r.target.toNat + r.addend.toInt

/-- The address of the field. -/
def place (code : WritableCode) (r : ResolvedRelocation) : Int :=
  code.address.toNat + r.offset.toNat

/-- `u64::try_from` and `u32::try_from`, and the little-endian bytes. -/
def unsignedField (w : Nat) (value : Int) : Option (List UInt8) :=
  if 0 ≤ value ∧ value < 2 ^ (8 * w) then some (leBytes w value.toNat) else none

/-- `i32::try_from`, and the little-endian bytes of its two's complement. -/
def signedField (value : Int) : Option (List UInt8) :=
  if -2 ^ 31 ≤ value ∧ value < 2 ^ 31 then some (leBytes 4 (BitVec.ofInt 32 value).toNat) else none

/-- The call field: 26 bits of an instruction whose other bits are kept. -/
def callField (current : BitVec 32) (delta : Int) : Option (List UInt8) :=
  if delta.tmod 4 ≠ 0 ∨ ¬(-2 ^ 27 ≤ delta ∧ delta < 2 ^ 27) then none
  else
    let immediate := BitVec.ofInt 32 (delta >>> (2 : Nat)) &&& 0x03ffffff#32
    some (leBytes 4 ((current &&& 0xfc000000#32) ||| immediate).toNat)

/-- The bytes of the field, if it can hold its value. -/
def encode (code : WritableCode) (r : ResolvedRelocation) : Option (List UInt8) :=
  match r.kind with
  | .abs8 => unsignedField 8 r.absolute
  | .abs4 => unsignedField 4 r.absolute
  | .x86PCRel4 | .x86CallPCRel4 | .x86CallPLTRel4 | .x86GOTPCRel4 =>
    signedField (r.absolute - r.place code)
  | .arm64Call =>
    callField (wordOf (slice code.bytes r.offset.toNat 4)) (r.absolute - r.place code)
  | _ => none

/-- Check one relocation and stage its write. -/
def stage (code : WritableCode) (r : ResolvedRelocation) :
    Outcome CodeMemoryError (Write UInt8) := do
  let offset := r.offset.toNat
  let width ← Outcome.okOr (.unsupportedRelocationKind r.kind) r.kind.width
  let outOfBounds := .relocationOutOfBounds offset width code.bytes.length
  let stop ← Outcome.okOr outOfBounds (checkedAdd offset width)
  if code.bytes.length < stop then Outcome.fail outOfBounds
  else do
    let bytes ← Outcome.okOr (.relocationValueOutOfRange offset r.target r.addend) (r.encode code)
    .ok ⟨offset, bytes⟩

end ResolvedRelocation

/-- `apply_relocations`. -/
def applyRelocations (code : WritableCode) (relocations : List ResolvedRelocation) :
    WritableCode × Outcome CodeMemoryError Unit :=
  match relocations.mapM (ResolvedRelocation.stage code) with
  | .error e => (code, .error e)
  | .ok writes => ({ code with bytes := overwriteAll code.bytes writes }, .ok ())

/-! ## What a relocation asks for -/

namespace ResolvedRelocation

/-- The kinds whose field holds a distance. -/
def isRelative (r : ResolvedRelocation) : Bool :=
  r.kind ≠ .abs8 ∧ r.kind ≠ .abs4

/-- The number the field is to hold. -/
def value (code : WritableCode) (r : ResolvedRelocation) : Int :=
  if r.isRelative then r.absolute - r.place code else r.absolute

/-- The field can hold the number. -/
def Representable (kind : RelocationKind) (value : Int) : Prop :=
  match kind with
  | .abs8 => 0 ≤ value ∧ value < 2 ^ 64
  | .abs4 => 0 ≤ value ∧ value < 2 ^ 32
  | .x86PCRel4 | .x86CallPCRel4 | .x86CallPLTRel4 | .x86GOTPCRel4 =>
    -2 ^ 31 ≤ value ∧ value < 2 ^ 31
  | .arm64Call => 4 ∣ value ∧ -2 ^ 27 ≤ value ∧ value < 2 ^ 27
  | _ => False

/-- Why a relocation is refused. -/
inductive Invalid (code : WritableCode) (r : ResolvedRelocation) : Prop
  | unsupported (h : r.kind.width = none)
  | outOfBounds (width : Nat) (h : r.kind.width = some width)
      (hbounds : code.bytes.length < r.offset.toNat + width)
  | outOfRange (width : Nat) (h : r.kind.width = some width)
      (hvalue : ¬Representable r.kind (r.value code))

/-- The number a field holds: absolute fields are unsigned, relative ones sign
extended, and the call field counts instructions of four bytes. -/
def decode (kind : RelocationKind) (field : List UInt8) : Int :=
  match kind with
  | .abs8 | .abs4 => leNat field
  | .arm64Call => ((wordOf field).extractLsb' 0 26).toInt * 4
  | _ => (wordOf field).toInt

/-- The range a relocation patches, as the positions it has. -/
def covers (r : ResolvedRelocation) (i : Nat) : Prop :=
  r.offset.toNat ≤ i ∧ i < r.offset.toNat + r.kind.width.getD 0

/-- Two relocations patch no common byte. -/
def Disjoint (r r' : ResolvedRelocation) : Prop := ∀ i, ¬(r.covers i ∧ r'.covers i)

end ResolvedRelocation

/-! ## The fields -/

theorem wordOf_leBytes (word : BitVec 32) : wordOf (leBytes 4 word.toNat) = word := by
  have hlt : word.toNat < 256 ^ 4 := word.isLt
  rw [wordOf, leNat_leBytes_of_lt hlt, BitVec.ofNat_toNat, BitVec.setWidth_eq]

/-- A number in the range of two's complement survives it. -/
theorem toInt_ofInt_of_range {n : Nat} {value : Int} (hlow : -2 ^ n ≤ value)
    (hhigh : value < 2 ^ n) : (BitVec.ofInt (n + 1) value).toInt = value := by
  rw [BitVec.toInt_ofInt]
  refine Int.bmod_eq_of_le ?_ ?_ <;>
  · push_cast
    rw [pow_succ]
    omega

/-- The opcode has none of the low 26 bits, and the immediate only those. -/
theorem call_masks : ∀ i < 32, (0xfc000000#32).getLsbD i = decide (26 ≤ i) ∧
    (0x03ffffff#32).getLsbD i = decide (i < 26) := by decide

theorem call_opcode (current immediate : BitVec 32) :
    ((current &&& 0xfc000000#32) ||| (immediate &&& 0x03ffffff#32)) &&& 0xfc000000#32 =
      current &&& 0xfc000000#32 := by
  refine BitVec.eq_of_getLsbD_eq fun i hi => ?_
  obtain ⟨hopcode, himmediate⟩ := call_masks i hi
  simp only [BitVec.getLsbD_and, BitVec.getLsbD_or, hopcode, himmediate]
  by_cases h : i < 26
  · simp [Nat.not_le.mpr h]
  · simp [h, Nat.not_lt.mp h]

theorem call_immediate (current : BitVec 32) (value : Int) :
    ((current &&& 0xfc000000#32) ||| (BitVec.ofInt 32 value &&& 0x03ffffff#32)).extractLsb' 0 26 =
      BitVec.ofInt 26 value := by
  have hlow : BitVec.ofInt 26 value = (BitVec.ofInt 32 value).setWidth 26 := by
    refine BitVec.eq_of_toNat_eq ?_
    rw [BitVec.toNat_setWidth, BitVec.toNat_ofInt, BitVec.toNat_ofInt]
    omega
  rw [hlow]
  refine BitVec.eq_of_getLsbD_eq fun i hi => ?_
  obtain ⟨hopcode, himmediate⟩ := call_masks i (by omega)
  simp [hopcode, himmediate, hi]

namespace ResolvedRelocation

/-- What the bytes of a field say about the number it was made for. -/
structure Field (code : WritableCode) (r : ResolvedRelocation) (bytes : List UInt8) : Prop where
  width : r.kind.width = some bytes.length
  decode : decode r.kind bytes = r.value code
  opcode : r.kind = .arm64Call → wordOf bytes &&& 0xfc000000#32 =
    wordOf (slice code.bytes r.offset.toNat 4) &&& 0xfc000000#32

variable {code : WritableCode} {r : ResolvedRelocation} {bytes : List UInt8}

theorem unsignedField_eq_some {w : Nat} {value : Int} (h : unsignedField w value = some bytes) :
    (0 ≤ value ∧ value < 2 ^ (8 * w)) ∧ bytes.length = w ∧ (leNat bytes : Int) = value := by
  obtain ⟨hrange, hbytes⟩ := Option.ite_none_right_eq_some.mp h
  cases hbytes
  refine ⟨hrange, length_leBytes _ _, ?_⟩
  have hlt : value.toNat < 256 ^ w := by
    have hpow : (256 : Nat) ^ w = 2 ^ (8 * w) := by rw [pow_mul]; rfl
    have hlt := hrange.2
    rw [hpow]
    zify
    rwa [Int.toNat_of_nonneg hrange.1]
  rw [leNat_leBytes_of_lt hlt, Int.toNat_of_nonneg hrange.1]

theorem signedField_eq_some {value : Int} (h : signedField value = some bytes) :
    (-2 ^ 31 ≤ value ∧ value < 2 ^ 31) ∧ bytes.length = 4 ∧ (wordOf bytes).toInt = value := by
  obtain ⟨hrange, hbytes⟩ := Option.ite_none_right_eq_some.mp h
  cases hbytes
  refine ⟨hrange, length_leBytes _ _, ?_⟩
  rw [wordOf_leBytes]
  exact toInt_ofInt_of_range hrange.1 hrange.2

theorem callField_eq_some {current : BitVec 32} {delta : Int}
    (h : callField current delta = some bytes) :
    (4 ∣ delta ∧ -2 ^ 27 ≤ delta ∧ delta < 2 ^ 27) ∧ bytes.length = 4 ∧
      ((wordOf bytes).extractLsb' 0 26).toInt * 4 = delta ∧
      wordOf bytes &&& 0xfc000000#32 = current &&& 0xfc000000#32 := by
  obtain ⟨hbad, hbytes⟩ := Option.ite_none_left_eq_some.mp h
  obtain ⟨haligned, hrange⟩ := not_or.mp hbad
  have hdvd : 4 ∣ delta := Int.dvd_of_tmod_eq_zero (not_not.mp haligned)
  obtain ⟨hlow, hhigh⟩ := not_not.mp hrange
  cases hbytes
  refine ⟨⟨hdvd, hlow, hhigh⟩, length_leBytes _ _, ?_, ?_⟩
  · have hshift : delta >>> (2 : Nat) = delta / 4 := Int.shiftRight_eq_div_pow delta 2
    rw [wordOf_leBytes, call_immediate, hshift, toInt_ofInt_of_range (by omega) (by omega)]
    exact Int.ediv_mul_cancel hdvd
  · rw [wordOf_leBytes, call_opcode]

/-- An encoded field holds the number that was asked for. -/
theorem encode_field (h : r.encode code = some bytes) :
    Field code r bytes ∧ Representable r.kind (r.value code) := by
  obtain ⟨offset, kind, target, addend⟩ := r
  cases kind with
  | abs8 =>
    obtain ⟨hrange, hlength, hvalue⟩ := unsignedField_eq_some h
    exact ⟨⟨congrArg some hlength.symm, hvalue, nofun⟩, hrange⟩
  | abs4 =>
    obtain ⟨hrange, hlength, hvalue⟩ := unsignedField_eq_some h
    exact ⟨⟨congrArg some hlength.symm, hvalue, nofun⟩, hrange⟩
  | x86PCRel4 | x86CallPCRel4 | x86CallPLTRel4 | x86GOTPCRel4 =>
    obtain ⟨hrange, hlength, hvalue⟩ := signedField_eq_some h
    exact ⟨⟨congrArg some hlength.symm, hvalue, nofun⟩, hrange⟩
  | arm64Call =>
    obtain ⟨hrange, hlength, hvalue, hopcode⟩ := callField_eq_some h
    exact ⟨⟨congrArg some hlength.symm, hvalue, fun _ => hopcode⟩, hrange⟩
  | _ => cases h

/-- A number the field can hold is encoded. -/
theorem encode_isSome (h : Representable r.kind (r.value code)) : ∃ bytes, r.encode code = some bytes := by
  obtain ⟨offset, kind, target, addend⟩ := r
  cases kind with
  | abs8 => exact ⟨_, if_pos h⟩
  | abs4 => exact ⟨_, if_pos h⟩
  | x86PCRel4 | x86CallPCRel4 | x86CallPLTRel4 | x86GOTPCRel4 => exact ⟨_, if_pos h⟩
  | arm64Call =>
    obtain ⟨hdvd, hrange⟩ := h
    refine ⟨_, if_neg (not_or.mpr ⟨not_not.mpr ?_, not_not.mpr hrange⟩)⟩
    exact Int.tmod_eq_zero_of_dvd hdvd
  | _ => exact h.elim

/-! ## One relocation -/

theorem width_le {kind : RelocationKind} {width : Nat} (h : kind.width = some width) :
    0 < width ∧ width ≤ 8 := by
  cases kind <;> cases h <;> decide

/-- `stage` succeeds on what is not invalid, with the encoded field in bounds. -/
theorem stage_eq_ok {w : Write UInt8} : r.stage code = .ok w ↔
    w.offset = r.offset.toNat ∧ w.stop ≤ code.bytes.length ∧ r.kind.width = some w.content.length ∧
      r.encode code = some w.content := by
  simp only [stage, bind_eq_ok, okOr_eq_ok, ite_fail_eq_ok,
    checkedAdd_eq_some]
  constructor
  · rintro ⟨width, hwidth, stop, ⟨-, rfl⟩, hbounds, bytes, hbytes, hw⟩
    cases hw
    have hlength : width = bytes.length :=
      Option.some.inj (hwidth.symm.trans (encode_field hbytes).1.width)
    refine ⟨rfl, ?_, hlength ▸ hwidth, hbytes⟩
    rw [Write.stop, ← hlength]
    exact Nat.not_lt.mp hbounds
  · obtain ⟨offset, content⟩ := w
    rintro ⟨rfl, hbounds, hwidth, hbytes⟩
    have hsmall : 0 < content.length ∧ content.length ≤ 8 := width_le hwidth
    have hoffset := r.offset.toNat_lt
    refine ⟨content.length, hwidth, _, ⟨?_, rfl⟩, Nat.not_lt.mpr hbounds, content, hbytes, rfl⟩
    unfold usizeMax
    omega

theorem invalid_iff : Invalid code r ↔ ¬∃ w, r.stage code = .ok w := by
  constructor
  · rintro h ⟨w, hw⟩
    obtain ⟨hoffset, hbounds, hwidth, hencode⟩ := stage_eq_ok.mp hw
    cases h with
    | unsupported h => simp [h] at hwidth
    | outOfBounds width h hout =>
      cases h.symm.trans hwidth
      rw [Write.stop, hoffset] at hbounds
      omega
    | outOfRange width h hvalue => exact hvalue (encode_field hencode).2
  · intro hnone
    by_contra hvalid
    cases hwidth : r.kind.width with
    | none => exact hvalid (.unsupported hwidth)
    | some width =>
      have hbounds : r.offset.toNat + width ≤ code.bytes.length :=
        Nat.not_lt.mp fun h => hvalid (.outOfBounds width hwidth h)
      have hvalue : Representable r.kind (r.value code) := by
        by_contra h
        exact hvalid (.outOfRange width hwidth h)
      obtain ⟨bytes, hbytes⟩ := encode_isSome hvalue
      have hlength : width = bytes.length :=
        Option.some.inj (hwidth.symm.trans (encode_field hbytes).1.width)
      subst hlength
      exact hnone ⟨⟨r.offset.toNat, bytes⟩, stage_eq_ok.mpr ⟨rfl, hbounds, hwidth, hbytes⟩⟩

end ResolvedRelocation

/-! ## The batch -/

/-- All relocations are staged, or none is written. -/
theorem applyRelocations_ok {code' : WritableCode}
    (h : applyRelocations code relocations = (code', .ok ())) :
    ∃ writes, List.Forall₂ (fun r w => r.stage code = .ok w) relocations writes ∧
      code'.bytes = overwriteAll code.bytes writes := by
  unfold applyRelocations at h
  split at h
  case h_1 => cases h
  case h_2 writes hwrites =>
    cases h
    exact ⟨writes, mapM_eq_ok.mp hwrites, rfl⟩

theorem applyRelocations_error_iff :
    (∃ e, (applyRelocations code relocations).2 = .error e) ↔
      ∃ r ∈ relocations, r.Invalid code := by
  have hok : (∃ writes, relocations.mapM (ResolvedRelocation.stage code) = .ok writes) ↔
      ∀ r ∈ relocations, ∃ w, r.stage code = .ok w := mapM_isOk
  have hinvalid : (∃ r ∈ relocations, r.Invalid code) ↔
      ¬∀ r ∈ relocations, ∃ w, r.stage code = .ok w := by
    simp only [ResolvedRelocation.invalid_iff, not_forall, exists_prop]
  rw [hinvalid, ← hok]
  unfold applyRelocations
  cases hmap : relocations.mapM (ResolvedRelocation.stage code) with
  | error e => exact ⟨fun _ => by simp, fun _ => ⟨e, rfl⟩⟩
  | ok writes =>
    refine ⟨?_, fun h => absurd ⟨writes, rfl⟩ h⟩
    rintro ⟨e, he⟩
    cases he

/-- Staged relocations that patch no common byte are writes that are apart. -/
theorem apart_of_disjoint {r r' : ResolvedRelocation} {w w' : Write UInt8}
    (hw : r.stage code = .ok w) (hw' : r'.stage code = .ok w') (h : r.Disjoint r') :
    w.Apart w' := by
  obtain ⟨hoffset, -, hwidth, -⟩ := ResolvedRelocation.stage_eq_ok.mp hw
  obtain ⟨hoffset', -, hwidth', -⟩ := ResolvedRelocation.stage_eq_ok.mp hw'
  have hpos := (ResolvedRelocation.width_le hwidth).1
  have hpos' := (ResolvedRelocation.width_le hwidth').1
  unfold Write.Apart Write.stop
  by_contra hoverlap
  obtain ⟨hlow, hhigh⟩ := not_or.mp hoverlap
  -- the later of the two starts is in both
  refine h (max w.offset w'.offset) ⟨?_, ?_⟩
  · rw [ResolvedRelocation.covers, hwidth, ← hoffset, Option.getD_some]
    omega
  · rw [ResolvedRelocation.covers, hwidth', ← hoffset', Option.getD_some]
    omega

theorem apart_of_pairwise {writes : List (Write UInt8)}
    (h : List.Forall₂ (fun r w => ResolvedRelocation.stage code r = .ok w) relocations writes)
    (hdisjoint : relocations.Pairwise ResolvedRelocation.Disjoint) :
    writes.Pairwise Write.Apart := by
  induction h with
  | nil => exact .nil
  | @cons r w relocations writes hr hrest ih =>
    rw [List.pairwise_cons] at hdisjoint
    refine List.pairwise_cons.mpr ⟨fun w' hw' => ?_, ih hdisjoint.2⟩
    obtain ⟨r', hr', hstage⟩ := forall₂_mem_right hrest hw'
    exact apart_of_disjoint hr hstage (hdisjoint.1 r' hr')

/-- Relocation batches are atomic and exact. -/
theorem relocations_atomic_and_exact (code : WritableCode)
    (relocations : List ResolvedRelocation) :
    ((∃ e, (applyRelocations code relocations).2 = .error e) →
        (applyRelocations code relocations).1 = code) ∧
      ((∃ e, (applyRelocations code relocations).2 = .error e) ↔
        ∃ r ∈ relocations, r.Invalid code) ∧
      ((applyRelocations code relocations).2 = .ok () →
        relocations.Pairwise ResolvedRelocation.Disjoint →
        (∀ r ∈ relocations, ∃ width, r.kind.width = some width ∧
          ResolvedRelocation.decode r.kind
              (slice (applyRelocations code relocations).1.bytes r.offset.toNat width) =
            r.value code ∧
          (r.kind = .arm64Call →
            wordOf (slice (applyRelocations code relocations).1.bytes r.offset.toNat width) &&&
                0xfc000000#32 =
              wordOf (slice code.bytes r.offset.toNat width) &&& 0xfc000000#32)) ∧
        ∀ i, (∀ r ∈ relocations, ¬r.covers i) →
          (applyRelocations code relocations).1.bytes[i]? = code.bytes[i]?) := by
  refine ⟨?_, applyRelocations_error_iff, fun hok hdisjoint => ?_⟩
  · rintro ⟨e, he⟩
    unfold applyRelocations at he ⊢
    cases hmap : relocations.mapM (ResolvedRelocation.stage code) with
    | error e' => rfl
    | ok writes =>
      rw [hmap] at he
      cases he
  · have happly : applyRelocations code relocations =
        ((applyRelocations code relocations).1, .ok ()) := Prod.ext rfl hok
    obtain ⟨writes, hstaged, hbytes⟩ := applyRelocations_ok happly
    have hfits : FitsIn code.bytes writes := by
      intro w hw
      obtain ⟨r, -, hr⟩ := forall₂_mem_right hstaged hw
      exact (ResolvedRelocation.stage_eq_ok.mp hr).2.1
    rw [hbytes]
    refine ⟨fun r hr => ?_, fun i hi => getElem?_overwriteAll hfits fun w hw => ?_⟩
    · obtain ⟨w, hw, hstage⟩ := forall₂_mem_left hstaged hr
      obtain ⟨hoffset, -, hwidth, hencode⟩ := ResolvedRelocation.stage_eq_ok.mp hstage
      have hslice := slice_overwriteAll hfits (apart_of_pairwise hstaged hdisjoint) w hw
      have hfield := (ResolvedRelocation.encode_field hencode).1
      rw [hoffset] at hslice
      refine ⟨w.content.length, hwidth, ?_, fun harm => ?_⟩
      · rw [hslice]
        exact hfield.decode
      · rw [hslice, hfield.opcode harm]
        have hfour : w.content.length = 4 := by
          rw [harm] at hwidth
          exact (Option.some.inj hwidth).symm
        rw [hfour]
    · obtain ⟨r, hr, hstage⟩ := forall₂_mem_right hstaged hw
      obtain ⟨hoffset, -, hwidth, -⟩ := ResolvedRelocation.stage_eq_ok.mp hstage
      have houtside := hi r hr
      rw [ResolvedRelocation.covers, hwidth, ← hoffset, Option.getD_some] at houtside
      unfold Write.stop
      omega

-- an absolute field and a distance of -8
example : applyRelocations ⟨List.replicate 8 0, 4096⟩
      [⟨0, .abs4, 7, 1⟩, ⟨4, .x86PCRel4, 4096, -4⟩] =
    (⟨[8, 0, 0, 0, 0xf8, 0xff, 0xff, 0xff], 4096⟩, .ok ()) := by
  decide

-- the last relocation is not aligned, so the first is not applied either
example : applyRelocations ⟨List.replicate 8 0, 4096⟩
      [⟨0, .abs4, 7, 1⟩, ⟨4, .arm64Call, 4096, 2⟩] =
    (⟨List.replicate 8 0, 4096⟩, Outcome.fail (.relocationValueOutOfRange 4 4096 2)) := by
  decide

/-- Staging reads nothing of the bytes but its own field. -/
theorem stage_congr {code' : WritableCode} {r : ResolvedRelocation}
    (haddress : code'.address = code.address) (hlength : code'.bytes.length = code.bytes.length)
    (hfield : ∀ i, r.covers i → code'.bytes[i]? = code.bytes[i]?) : r.stage code' = r.stage code := by
  have hencode : r.encode code' = r.encode code := by
    unfold ResolvedRelocation.encode ResolvedRelocation.place
    rw [haddress]
    split <;> try rfl
    case h_7 hkind =>
      congr 2
      refine List.ext_getElem? fun i => ?_
      rw [getElem?_slice, getElem?_slice]
      split
      case isTrue hi => exact hfield _ ⟨Nat.le_add_right .., hkind ▸ Nat.add_lt_add_left hi _⟩
      case isFalse => rfl
  unfold ResolvedRelocation.stage
  rw [hencode, hlength]

/-- A batch may be split: where no field of the one half touches a field of the
other, the halves can be applied one after the other. -/
theorem relocations_compose (code code'' : WritableCode) (first rest : List ResolvedRelocation)
    (hdisjoint : ∀ r ∈ first, ∀ r' ∈ rest, r.Disjoint r') :
    applyRelocations code (first ++ rest) = (code'', .ok ()) ↔
      ∃ code', applyRelocations code first = (code', .ok ()) ∧
        applyRelocations code' rest = (code'', .ok ()) := by
  unfold applyRelocations
  rw [List.mapM_append]
  cases hfirst : first.mapM (ResolvedRelocation.stage code) with
  | error e => simp [bind, Except.bind]
  | ok writes =>
    have hstaged := mapM_eq_ok.mp hfirst
    have hfits : FitsIn code.bytes writes := fun w hw => by
      obtain ⟨r, -, hr⟩ := forall₂_mem_right hstaged hw
      exact (ResolvedRelocation.stage_eq_ok.mp hr).2.1
    have hrest : ∀ r' ∈ rest, r'.stage { code with bytes := overwriteAll code.bytes writes } =
        r'.stage code := fun r' hr' => by
      refine stage_congr rfl (length_overwriteAll hfits) fun i hi => ?_
      refine getElem?_overwriteAll hfits fun w hw => ?_
      obtain ⟨r, hr, hstage⟩ := forall₂_mem_right hstaged hw
      obtain ⟨hoffset, -, hwidth, -⟩ := ResolvedRelocation.stage_eq_ok.mp hstage
      have houtside : ¬r.covers i := fun h => hdisjoint r hr r' hr' i ⟨h, hi⟩
      rw [ResolvedRelocation.covers, hwidth, ← hoffset, Option.getD_some] at houtside
      unfold Write.stop
      omega
    have hmap : rest.mapM (ResolvedRelocation.stage ⟨overwriteAll code.bytes writes, code.address⟩) =
        rest.mapM (ResolvedRelocation.stage code) := by
      have hmap := congrArg (List.mapM id) (List.map_congr_left hrest)
      rwa [List.mapM_map, List.mapM_map] at hmap
    cases hlast : rest.mapM (ResolvedRelocation.stage code) <;>
      simp [hmap, hlast, bind, Except.bind, pure, Except.pure, overwriteAll_append]

theorem abs_then_relative :
    ∃ code', applyRelocations ⟨List.replicate 8 0, 4096⟩ [⟨0, .abs4, 7, 1⟩] = (code', .ok ()) ∧
      applyRelocations code' [⟨4, .x86PCRel4, 4096, -4⟩] =
        (⟨[8, 0, 0, 0, 0xf8, 0xff, 0xff, 0xff], 4096⟩, .ok ()) := by
  refine (relocations_compose _ _ _ _ fun r hr r' hr' i => ?_).mp (by decide)
  rw [List.mem_singleton.mp hr, List.mem_singleton.mp hr']
  rintro ⟨⟨-, hlow⟩, hhigh, -⟩
  exact absurd (Nat.lt_of_le_of_lt hhigh hlow) (by decide)

end QuickJit
