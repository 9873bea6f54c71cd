import QuickJit.Runtime.Feedback

/-
  The version of a feedback table counts its changes.

  A change is detected by what it does to a few lengths and flags, not by
  comparing contents. Each `observe_shape` says that this misses nothing and
  reports nothing else, so that one observation advances the version exactly if
  it changes the recorded cells (`step_version`).

  The recorded cells are what a snapshot shows together with the arities of
  calls (`cells_eq_iff`): a snapshot shows an arity only while it is the only
  one. Reading the cells back from a snapshot rests on `Live`: a cell in the
  table lists nothing exactly if it is megamorphic.
-/

namespace QuickJit

open OrdMap

namespace BoundedSet

variable {limit : Nat} {t t' : Table} {α : Type}

variable {α : Type}

/-- A cell that is in use lists something, unless it is megamorphic. -/
def Live (s : BoundedSet α) : Prop := s.megamorphic = true ↔ s.observations = []

/-- Live, or not in use yet. -/
def Sane (s : BoundedSet α) : Prop := s.megamorphic = true → s.observations = []

theorem Live.sane {s : BoundedSet α} (h : s.Live) : s.Sane := h.mp

theorem sane_empty : (empty : BoundedSet α).Sane := nofun

/-- What a live cell lists determines it. -/
theorem Live.ext {s s' : BoundedSet α} (h : s.Live) (h' : s'.Live)
    (heq : s.observations = s'.observations) : s = s' :=
  BoundedSet.ext heq (Bool.eq_iff_iff.mpr (h.trans (heq ▸ h'.symm)))

theorem Live.map_ext : ∀ {l l' : List (BoundedSet α)}, (∀ s ∈ l, s.Live) → (∀ s ∈ l', s.Live) →
    l.map observations = l'.map observations → l = l'
  | [], [], _, _, _ => rfl
  | s :: l, s' :: l', h, h', heq => by
    rw [List.map_cons, List.map_cons, List.cons.injEq] at heq
    rw [(h s List.mem_cons_self).ext (h' s' List.mem_cons_self) heq.1,
      Live.map_ext (fun u hu => h u (List.mem_cons_of_mem s hu))
        (fun u hu => h' u (List.mem_cons_of_mem s' hu)) heq.2]

variable [DecidableEq α]

theorem Sane.observe {s : BoundedSet α} (h : s.Sane) (limit : Nat) (a : α) :
    (s.observe limit a).Live := by
  rcases observe_cases limit s a with ⟨hs, hseen⟩ | ⟨hs, -⟩ | ⟨hs, -⟩
  · rw [hs]
    refine ⟨h, fun hnil => ?_⟩
    rcases hseen with hmega | hmem
    · exact hmega
    · rw [hnil] at hmem
      cases hmem
  · rw [hs]
    exact ⟨fun _ => rfl, fun _ => rfl⟩
  · rw [hs]
    exact ⟨nofun, by simp⟩

theorem observeSlots_live (limit : Nat) : ∀ (slots : List (BoundedSet α)) (row : List α),
    (∀ s ∈ slots, s.Live) → ∀ s ∈ observeSlots limit slots row, s.Live
  | slots, [], h => by simpa using h
  | [], a :: row, h => by
    rw [observeSlots_new]
    exact List.forall_mem_cons.mpr ⟨sane_empty.observe limit a, observeSlots_live limit [] row h⟩
  | s :: slots, a :: row, h => by
    obtain ⟨hs, hslots⟩ := List.forall_mem_cons.mp h
    rw [observeSlots_cons]
    exact List.forall_mem_cons.mpr ⟨hs.sane.observe limit a, observeSlots_live limit slots row hslots⟩

theorem observe_empty_ne (hlimit : 0 < limit) (a : α) :
    (empty : BoundedSet α).observe limit a ≠ empty := by
  have hnot : ¬limit ≤ 0 := by omega
  simp [observe, empty, hnot]

end BoundedSet

namespace Feedback

/-! ## Shapes tell changes -/

theorem CallEntry.observe_shape {call : CallEntry} {arguments : List ObservedType} :
    (call.observe limit arguments).shape = call.shape ↔ call.observe limit arguments = call := by
  refine ⟨fun h => ?_, fun h => congrArg _ h⟩
  simp only [CallEntry.shape, CallEntry.observe, Prod.mk.injEq] at h
  obtain ⟨harities, hlength, hslots⟩ := h
  have hslots' := BoundedSet.observeSlots_shape.mp ⟨hlength, hslots⟩
  have harities' := BoundedSet.observe_shape.mp harities
  simp only [CallEntry.observe, hslots', harities']

theorem BinaryEntry.observe_shape {e : BinaryEntry} {seen : BinaryEvent} :
    (e.observe limit seen).shape = e.shape ↔ e.observe limit seen = e := by
  refine ⟨fun h => ?_, fun h => congrArg _ h⟩
  simp only [BinaryEntry.shape, BinaryEntry.observe, Prod.mk.injEq] at h
  obtain ⟨hlhs, hrhs, hresult, hflags⟩ := h
  simp only [BinaryEntry.observe, BoundedSet.observe_shape.mp hlhs, BoundedSet.observe_shape.mp hrhs,
    BoundedSet.observe_shape.mp hresult, hflags]

theorem ConversionEntry.observe_shape {e : ConversionEntry} {seen : ConversionEvent} :
    (e.observe limit seen).shape = e.shape ↔ e.observe limit seen = e := by
  refine ⟨fun h => ?_, fun h => congrArg _ h⟩
  simp only [ConversionEntry.shape, ConversionEntry.observe, Prod.mk.injEq] at h
  simp only [ConversionEntry.observe, BoundedSet.observe_shape.mp h.1,
    BoundedSet.observe_shape.mp h.2]

theorem BranchEntry.observe_shape {e : BranchEntry} {seen : BranchEvent} :
    (e.observe limit seen).shape = e.shape ↔ e.observe limit seen = e := by
  refine ⟨fun h => ?_, fun h => congrArg _ h⟩
  simp only [BranchEntry.shape, BranchEntry.observe, Prod.mk.injEq] at h
  simp only [BranchEntry.observe, BoundedSet.observe_shape.mp h.1, h.2]

namespace CallSignatureEntry

variable {e : CallSignatureEntry} {seen : CallSignatureEvent} {limit : Nat}

/-- The call has another identity than the site. -/
def differs (e : CallSignatureEntry) (seen : CallSignatureEvent) : Prop :=
  e.calleeIdentity ≠ seen.calleeIdentity ∨ e.calleeBytecodeIdentity ≠ seen.calleeBytecodeIdentity

instance (e : CallSignatureEntry) (seen : CallSignatureEvent) : Decidable (e.differs seen) :=
  inferInstanceAs (Decidable (_ ∨ _))

/-- An observation, field by field. -/
theorem observe_eq (limit : Nat) (e : CallSignatureEntry) (seen : CallSignatureEvent) :
    e.observe limit seen =
      { targets := (if e.differs seen then { e.targets with megamorphic := true }
          else e.targets).observe limit seen.callee
        arities := e.arities.observe limit seen.arguments.length
        arguments := BoundedSet.observeSlots limit e.arguments seen.arguments
        results := e.results.observe limit seen.result
        calleeIdentity := if e.calleeIdentity ≠ seen.calleeIdentity then 0 else e.calleeIdentity
        calleeBytecodeIdentity :=
          if e.calleeBytecodeIdentity ≠ seen.calleeBytecodeIdentity then 0
          else e.calleeBytecodeIdentity } := by
  unfold observe identify differs
  by_cases hidentity : e.calleeIdentity = seen.calleeIdentity <;>
    by_cases hbytecode : e.calleeBytecodeIdentity = seen.calleeBytecodeIdentity <;>
    simp [hidentity, hbytecode]

theorem observe_shape : (e.observe limit seen).shape = e.shape ↔ e.observe limit seen = e := by
  refine ⟨fun h => ?_, fun h => congrArg _ h⟩
  rw [observe_eq] at h ⊢
  simp only [shape, Prod.mk.injEq] at h
  obtain ⟨htargets, harities, hlength, hslots, hresults, hidentity, hbytecode⟩ := h
  have htargets' : (if e.differs seen then { e.targets with megamorphic := true }
      else e.targets).observe limit seen.callee = e.targets := by
    split at htargets
    case isTrue hdiffers =>
      -- the targets were megamorphic before
      rw [if_pos hdiffers]
      have hstays : BoundedSet.observe limit { e.targets with megamorphic := true } seen.callee =
          { e.targets with megamorphic := true } := if_pos (.inl rfl)
      rw [hstays] at htargets ⊢
      have hmega : true = e.targets.megamorphic := congrArg Prod.snd htargets
      rw [hmega]
    case isFalse hsame =>
      rw [if_neg hsame]
      exact BoundedSet.observe_shape.mp htargets
  have hslots' := BoundedSet.observeSlots_shape.mp ⟨hlength, hslots⟩
  rw [htargets', BoundedSet.observe_shape.mp harities, hslots', BoundedSet.observe_shape.mp hresults,
    hidentity, hbytecode]

end CallSignatureEntry

/-! ## One observation -/

/-- What the table has recorded. -/
structure Cells where
  entries : OrdMap Key Entry
  calls : OrdMap FunctionKey CallEntry
  binaries : OrdMap Site BinaryEntry
  conversions : OrdMap Site ConversionEntry
  branches : OrdMap Site BranchEntry
  callSignatures : OrdMap Site CallSignatureEntry
  arrays : OrdMap Site ArrayEntry

def Table.cells (t : Table) : Cells :=
  ⟨t.entries, t.calls, t.binaries, t.conversions, t.branches, t.callSignatures, t.arrays.entries⟩

/-- An entry that is found or made and then changed: the shape tells whether the
map has changed. -/
theorem insert_eq_iff_shape {κ σ : Type} [LinearOrder κ] {m : OrdMap κ α} {k : κ} {new : α}
    (shape : α → σ) (init : α) (hshape : shape new = shape ((m.get? k).getD init) ↔
      new = (m.get? k).getD init) (hinit : m.get? k = none → new ≠ init) :
    m.insert k new = m ↔ shape ((m.get? k).getD init) = shape new := by
  rw [insert_eq_self, eq_comm (a := shape _), hshape]
  cases hget : m.get? k with
  | none => exact ⟨nofun, fun h => absurd h (hinit hget)⟩
  | some a =>
    rw [Option.getD_some, Option.some.injEq]
    exact eq_comm

/-- The version advances exactly if the cells change. -/
def Counts (t t' : Table) : Prop :=
  (t'.cells = t.cells → t'.version = t.version) ∧
    (t'.cells ≠ t.cells → t'.version = t.version + 1)

theorem counts_refl (t : Table) : Counts t t := ⟨fun _ => rfl, fun h => absurd rfl h⟩

theorem counts_of_iff {c : Prop} [Decidable c] (hversion : t.version + 1 < 2 ^ 64)
    (hcells : t'.cells = t.cells ↔ ¬c)
    (hnew : t'.version = if c then wrappingSucc t.version else t.version) : Counts t t' := by
  by_cases hc : c
  · rw [if_pos hc, wrappingSucc_eq hversion] at hnew
    exact ⟨fun h => absurd hc (hcells.mp h), fun _ => hnew⟩
  · rw [if_neg hc] at hnew
    exact ⟨fun _ => hnew, fun h => absurd (hcells.mpr hc) h⟩

section Observing

variable {t : Table}

theorem recordCall_counts (hversion : t.version + 1 < 2 ^ 64) (function : FunctionKey)
    (arguments : List ObservedType) : Counts t (t.recordCall function arguments) := by
  refine counts_of_iff (c := t.calls.contains function = false ∨
    ((t.calls.get? function).getD .empty).shape ≠
      (((t.calls.get? function).getD .empty).observe t.diversityLimit arguments).shape)
    hversion ?_ rfl
  have hcells : (t.recordCall function arguments).cells = t.cells ↔
      (t.recordCall function arguments).calls = t.calls := by
    simp [Table.cells, Table.recordCall]
  rw [hcells, Table.recordCall, insert_eq_self, not_or, not_not, Bool.not_eq_false,
    OrdMap.contains, eq_comm (a := CallEntry.shape _), CallEntry.observe_shape]
  cases hget : t.calls.get? function with
  | none => simp
  | some call => simp [eq_comm]

theorem observeCall_counts (hversion : t.version + 1 < 2 ^ 64) (function : FunctionKey)
    (arguments : List ObservedType) : Counts t (t.observeCall function arguments) := by
  unfold Table.observeCall
  split
  · exact counts_refl t
  · exact recordCall_counts hversion function arguments

section

variable (hlimit : 0 < t.diversityLimit)

include hlimit

variable (hversion : t.version + 1 < 2 ^ 64)

include hversion

theorem observeBinary_counts (site : Site) (seen : BinaryEvent) :
    Counts t (t.observeBinary site seen).1 := by
  refine counts_of_iff hversion ?_ rfl
  rw [not_not, ← insert_eq_iff_shape BinaryEntry.shape .empty BinaryEntry.observe_shape]
  · simp [Table.cells, Table.observeBinary]
  · intro hget h
    rw [hget] at h
    exact BoundedSet.observe_empty_ne hlimit seen.lhs (congrArg BinaryEntry.lhs h)

theorem observeConversion_counts (site : Site) (seen : ConversionEvent) :
    Counts t (t.observeConversion site seen).1 := by
  refine counts_of_iff hversion ?_ rfl
  rw [not_not, ← insert_eq_iff_shape ConversionEntry.shape .empty ConversionEntry.observe_shape]
  · simp [Table.cells, Table.observeConversion]
  · intro hget h
    rw [hget] at h
    exact BoundedSet.observe_empty_ne hlimit seen.operand (congrArg ConversionEntry.operand h)

theorem observeBranch_counts (site : Site) (seen : BranchEvent) :
    Counts t (t.observeBranch site seen).1 := by
  refine counts_of_iff hversion ?_ rfl
  rw [not_not, ← insert_eq_iff_shape BranchEntry.shape .empty BranchEntry.observe_shape]
  · simp [Table.cells, Table.observeBranch]
  · intro hget h
    rw [hget] at h
    exact BoundedSet.observe_empty_ne hlimit seen.conditionType
      (congrArg BranchEntry.conditionTypes h)

theorem observeCallSignature_counts (site : Site) (seen : CallSignatureEvent) :
    Counts t (t.observeCallSignatureWithIdentity site seen).1 := by
  refine counts_of_iff hversion ?_ rfl
  rw [not_not, ← insert_eq_iff_shape CallSignatureEntry.shape
    (.empty seen.calleeIdentity seen.calleeBytecodeIdentity) CallSignatureEntry.observe_shape]
  · simp [Table.cells, Table.observeCallSignatureWithIdentity]
  · intro hget h
    rw [hget, CallSignatureEntry.observe_eq] at h
    exact BoundedSet.observe_empty_ne hlimit seen.result (congrArg CallSignatureEntry.results h)

end

theorem recordEntry_counts (hversion : t.version + 1 < 2 ^ 64) {key : Key} {entry : Entry}
    {before : Option (Nat × Bool)} {observation : ObservedType}
    (hbefore : t.entries.get? key = some (entry.observe t.diversityLimit observation) ↔
      before = some (entry.observe t.diversityLimit observation).shape) :
    Counts t (t.recordEntry key entry before observation).1 := by
  refine counts_of_iff hversion ?_ rfl
  rw [not_not, ← hbefore, ← insert_eq_self]
  simp [Table.cells, Table.recordEntry]

theorem observeType_counts (hversion : t.version + 1 < 2 ^ 64) (key : Key)
    (observation : ObservedType) : Counts t (t.observeType key observation).1 := by
  unfold Table.observeType
  split
  · exact counts_refl t
  · unfold Table.recordType
    split
    case h_1 entry hget =>
      refine recordEntry_counts hversion ?_
      rw [hget, Option.some.injEq, Option.some.injEq, eq_comm (a := BoundedSet.shape _),
        BoundedSet.observe_shape, eq_comm]
    case h_2 hget =>
      split
      · exact counts_refl t
      · refine recordEntry_counts hversion ?_
        rw [hget]
        exact ⟨nofun, nofun⟩

theorem mode_bit_ne (mode : ArrayMode) : (0 : BitVec 8) ||| mode.bit ≠ 0 := by
  cases mode <;> decide

/-- The array table counts its own changes. -/
theorem arrays_observe_counts {a : ArrayTable} (hversion : a.version + 1 < 2 ^ 64) (site : Site)
    (seen : ArrayEvent) :
    ((a.observe site seen).1.entries = a.entries ∧ (a.observe site seen).1.version = a.version) ∨
      ((a.observe site seen).1.entries ≠ a.entries ∧
        (a.observe site seen).1.version = a.version + 1) := by
  have hsucc : saturatingSucc a.version = a.version + 1 := by
    unfold saturatingSucc
    omega
  unfold ArrayTable.observe
  split
  · exact .inl ⟨rfl, rfl⟩
  · -- a site that is made here gets a mode
    have hmade : a.entries.get? site = none →
        ((a.entries.get? site).getD (.empty seen.access)).observe a.diversityLimit seen ≠
          .empty seen.access := by
      intro hget h
      rw [hget] at h
      exact mode_bit_ne seen.mode (congrArg ArrayEntry.modes h)
    have hcells := insert_eq_iff_shape id (ArrayEntry.empty seen.access) Iff.rfl hmade
    by_cases hsame : ((a.entries.get? site).getD (.empty seen.access)).observe a.diversityLimit seen =
        (a.entries.get? site).getD (.empty seen.access)
    · exact .inl ⟨hcells.mpr hsame.symm, if_neg (not_not.mpr hsame)⟩
    · exact .inr ⟨fun h => hsame (hcells.mp h).symm, (if_pos hsame).trans hsucc⟩

theorem observeArray_counts (harrays : t.arrays.version ≤ t.version)
    (hversion : t.version + 1 < 2 ^ 64) (site : Site) (seen : ArrayEvent) :
    Counts t (t.observeArray site seen).1 ∧
      (t.observeArray site seen).1.arrays.version ≤ (t.observeArray site seen).1.version := by
  have hsucc : saturatingSucc t.version = t.version + 1 := by
    unfold saturatingSucc
    omega
  have heq : (t.observeArray site seen).1.version =
      if (t.arrays.observe site seen).1.version ≠ t.arrays.version then saturatingSucc t.version
      else t.version := rfl
  have hcells : (t.observeArray site seen).1.cells = t.cells ↔
      (t.arrays.observe site seen).1.entries = t.arrays.entries := by
    simp [Table.cells, Table.observeArray]
  have harrays' : (t.observeArray site seen).1.arrays = (t.arrays.observe site seen).1 := rfl
  have hbelow : t.arrays.version + 1 < 2 ^ 64 := by omega
  rcases arrays_observe_counts hbelow site seen with ⟨hentries, hv⟩ | ⟨hentries, hv⟩
  · rw [if_neg (not_not.mpr hv)] at heq
    exact ⟨⟨fun _ => heq, fun hne => absurd (hcells.mpr hentries) hne⟩, by rw [harrays', hv, heq]; omega⟩
  · rw [if_pos (by omega), hsucc] at heq
    exact ⟨⟨fun h => absurd (hcells.mp h) hentries, fun _ => heq⟩, by rw [harrays', hv, heq]; omega⟩

end Observing

/-! ## Reachable tables -/

/-- A table that is reached while its version is short of its end. -/
inductive Reachable : Table → Prop
  | new (capacity diversityLimit : Nat) : Reachable (.new capacity diversityLimit)
  | step {t : Table} (h : Reachable t) (hversion : t.version + 1 < 2 ^ 64) (op : Op) :
      Reachable (t.step op).1

structure CellsLive (c : Cells) : Prop where
  calls : ∀ f call, c.calls.get? f = some call → ∀ slot ∈ call.slots, slot.Live
  binaries : ∀ site e, c.binaries.get? site = some e → e.lhs.Live ∧ e.rhs.Live ∧ e.result.Live
  conversions : ∀ site e, c.conversions.get? site = some e → e.operand.Live ∧ e.result.Live
  branches : ∀ site e, c.branches.get? site = some e → e.conditionTypes.Live
  callSignatures : ∀ site e, c.callSignatures.get? site = some e →
    (∀ slot ∈ e.arguments, slot.Live) ∧ e.results.Live

def AllEntries {κ α : Type} [LinearOrder κ] (P : α → Prop) (m : OrdMap κ α) : Prop :=
  ∀ k a, m.get? k = some a → P a

section Entries

variable {κ α : Type} [LinearOrder κ] {P : α → Prop} {m : OrdMap κ α}

theorem AllEntries.insert (h : AllEntries P m) {k : κ} {a : α} (ha : P a) :
    AllEntries P (m.insert k a) := by
  intro k' b hb
  rcases get?_insert_cases hb with ⟨-, rfl⟩ | hb
  · exact ha
  · exact h k' b hb

theorem AllEntries.retain (h : AllEntries P m) (keep : κ → Bool) : AllEntries P (m.retain keep) := by
  intro k a ha
  rw [get?_retain] at ha
  split at ha
  · exact h k a ha
  · cases ha

theorem AllEntries.erase (h : AllEntries P m) (k : κ) : AllEntries P (m.erase k) := by
  intro k' a ha
  rw [get?_erase] at ha
  split at ha
  · cases ha
  · exact h k' a ha

/-- The entry that is found or made. -/
theorem AllEntries.getD (h : AllEntries P m) (init : α) {Q : α → Prop} (hPQ : ∀ a, P a → Q a)
    (hinit : Q init) (k : κ) : Q ((m.get? k).getD init) := by
  cases hget : m.get? k with
  | none => exact hinit
  | some a => exact hPQ a (h k a hget)

end Entries

/-- What is invariant over reachable tables. -/
structure TableOk (t : Table) : Prop where
  limit_pos : 0 < t.diversityLimit
  arrays_le : t.arrays.version ≤ t.version
  live : CellsLive t.cells

theorem TableOk.new (capacity diversityLimit : Nat) : TableOk (.new capacity diversityLimit) :=
  ⟨Nat.lt_of_lt_of_le Nat.zero_lt_one (Nat.le_max_right _ _), Nat.le_refl _,
    ⟨nofun, nofun, nofun, nofun, nofun⟩⟩

section Steps

variable {t : Table}

section

variable (h : TableOk t)

include h

/-- An observation of the cells leaves the limit and the arrays alone, and the
version does not go down. -/
theorem TableOk.of_counts (hcounts : Counts t t') (hlimit : t'.diversityLimit = t.diversityLimit)
    (harrays : t'.arrays = t.arrays) (hlive : CellsLive t'.cells) : TableOk t' := by
  refine ⟨hlimit ▸ h.limit_pos, ?_, hlive⟩
  have hle := h.arrays_le
  rw [harrays]
  by_cases hsame : t'.cells = t.cells
  · rw [hcounts.1 hsame]
    exact hle
  · rw [hcounts.2 hsame]
    omega

variable (hversion : t.version + 1 < 2 ^ 64)

include hversion

theorem TableOk.observeCall (function : FunctionKey) (arguments : List ObservedType) :
    TableOk (t.observeCall function arguments) := by
  refine h.of_counts (observeCall_counts hversion function arguments) ?_ ?_ ?_ <;>
    unfold Table.observeCall <;> split
  · rfl
  · rfl
  · rfl
  · rfl
  · exact h.live
  · have hslots : AllEntries (fun call : CallEntry => ∀ slot ∈ call.slots, slot.Live) t.calls :=
      h.live.calls
    refine { h.live with calls := hslots.insert ?_ }
    exact BoundedSet.observeSlots_live _ _ _
      (hslots.getD .empty (fun _ => id) (by simp [CallEntry.empty]) function)

theorem TableOk.observeBinary (site : Site) (seen : BinaryEvent) :
    TableOk (t.observeBinary site seen).1 := by
  refine h.of_counts (observeBinary_counts h.limit_pos hversion site seen) rfl rfl ?_
  have hlive : AllEntries (fun e : BinaryEntry => e.lhs.Live ∧ e.rhs.Live ∧ e.result.Live)
      t.binaries := h.live.binaries
  refine { h.live with binaries := hlive.insert ?_ }
  obtain ⟨hlhs, hrhs, hresult⟩ :=
    hlive.getD .empty (Q := fun e => e.lhs.Sane ∧ e.rhs.Sane ∧ e.result.Sane)
      (fun e he => ⟨he.1.sane, he.2.1.sane, he.2.2.sane⟩)
      ⟨BoundedSet.sane_empty, BoundedSet.sane_empty, BoundedSet.sane_empty⟩ site
  exact ⟨hlhs.observe _ _, hrhs.observe _ _, hresult.observe _ _⟩

theorem TableOk.observeConversion (site : Site) (seen : ConversionEvent) :
    TableOk (t.observeConversion site seen).1 := by
  refine h.of_counts (observeConversion_counts h.limit_pos hversion site seen) rfl rfl ?_
  have hlive : AllEntries (fun e : ConversionEntry => e.operand.Live ∧ e.result.Live)
      t.conversions := h.live.conversions
  refine { h.live with conversions := hlive.insert ?_ }
  obtain ⟨hoperand, hresult⟩ := hlive.getD .empty
    (Q := fun e => e.operand.Sane ∧ e.result.Sane)
    (fun e he => ⟨he.1.sane, he.2.sane⟩) ⟨BoundedSet.sane_empty, BoundedSet.sane_empty⟩ site
  exact ⟨hoperand.observe _ _, hresult.observe _ _⟩

theorem TableOk.observeBranch (site : Site) (seen : BranchEvent) :
    TableOk (t.observeBranch site seen).1 := by
  refine h.of_counts (observeBranch_counts h.limit_pos hversion site seen) rfl rfl ?_
  have hlive : AllEntries (fun e : BranchEntry => e.conditionTypes.Live) t.branches :=
    h.live.branches
  refine { h.live with branches := hlive.insert ?_ }
  exact BoundedSet.Sane.observe (hlive.getD .empty (Q := fun e => e.conditionTypes.Sane)
    (fun e he => he.sane) BoundedSet.sane_empty site) _ _

theorem TableOk.observeCallSignature (site : Site) (seen : CallSignatureEvent) :
    TableOk (t.observeCallSignatureWithIdentity site seen).1 := by
  refine h.of_counts (observeCallSignature_counts h.limit_pos hversion site seen) rfl rfl ?_
  have hlive : AllEntries (fun e : CallSignatureEntry => (∀ slot ∈ e.arguments, slot.Live) ∧
      e.results.Live) t.callSignatures := h.live.callSignatures
  refine { h.live with callSignatures := hlive.insert ?_ }
  obtain ⟨harguments, hresults⟩ := hlive.getD
    (.empty seen.calleeIdentity seen.calleeBytecodeIdentity)
    (Q := fun e => (∀ slot ∈ e.arguments, slot.Live) ∧ e.results.Sane)
    (fun e he => ⟨he.1, he.2.sane⟩) ⟨nofun, BoundedSet.sane_empty⟩ site
  rw [CallSignatureEntry.observe_eq]
  exact ⟨BoundedSet.observeSlots_live _ _ _ harguments, hresults.observe _ _⟩

end

/-- `observe_type` touches the entries only. -/
theorem observeType_frame (t : Table) (key : Key) (observation : ObservedType) :
    (t.observeType key observation).1.diversityLimit = t.diversityLimit ∧
      (t.observeType key observation).1.arrays = t.arrays ∧
      ∃ entries, (t.observeType key observation).1.cells = { t.cells with entries } := by
  unfold Table.observeType
  split
  · exact ⟨rfl, rfl, t.entries, rfl⟩
  · unfold Table.recordType
    split
    · exact ⟨rfl, rfl, _, rfl⟩
    · split
      · exact ⟨rfl, rfl, t.entries, rfl⟩
      · exact ⟨rfl, rfl, _, rfl⟩

theorem TableOk.observeType (h : TableOk t) (hversion : t.version + 1 < 2 ^ 64) (key : Key)
    (observation : ObservedType) : TableOk (t.observeType key observation).1 := by
  obtain ⟨hlimit, harrays, entries, hcells⟩ := observeType_frame t key observation
  refine h.of_counts (observeType_counts hversion key observation) hlimit harrays ?_
  rw [hcells]
  exact { h.live with }

theorem TableOk.observeArray (h : TableOk t) (hversion : t.version + 1 < 2 ^ 64) (site : Site)
    (seen : ArrayEvent) : TableOk (t.observeArray site seen).1 :=
  ⟨h.limit_pos, (observeArray_counts h.arrays_le hversion site seen).2, { h.live with }⟩

theorem TableOk.forgetFunction (h : TableOk t) (function : FunctionKey) :
    TableOk (t.forgetFunction function) := by
  refine ⟨h.limit_pos, h.arrays_le, ?_, ?_, ?_, ?_, ?_⟩
  · exact AllEntries.erase (P := fun call : CallEntry => ∀ slot ∈ call.slots, slot.Live)
      h.live.calls function
  · exact AllEntries.retain (P := fun e : BinaryEntry => e.lhs.Live ∧ e.rhs.Live ∧ e.result.Live)
      h.live.binaries _
  · exact AllEntries.retain (P := fun e : ConversionEntry => e.operand.Live ∧ e.result.Live)
      h.live.conversions _
  · exact AllEntries.retain (P := fun e : BranchEntry => e.conditionTypes.Live) h.live.branches _
  · exact AllEntries.retain (P := fun e : CallSignatureEntry =>
      (∀ slot ∈ e.arguments, slot.Live) ∧ e.results.Live) h.live.callSignatures _

/-- One operation: it keeps the invariant, and if it observes something the
version counts it. -/
theorem TableOk.step (h : TableOk t) (hversion : t.version + 1 < 2 ^ 64) (op : Op) :
    TableOk (t.step op).1 ∧ (op.observes = true → Counts t (t.step op).1) := by
  cases op with
  | call function arguments =>
    exact ⟨h.observeCall hversion function arguments,
      fun _ => observeCall_counts hversion function arguments⟩
  | exit site result =>
    exact ⟨h.observeType hversion _ result, fun _ => observeType_counts hversion _ result⟩
  | type key observation =>
    exact ⟨h.observeType hversion key observation, fun _ => observeType_counts hversion key observation⟩
  | binary site seen =>
    exact ⟨h.observeBinary hversion site seen,
      fun _ => observeBinary_counts h.limit_pos hversion site seen⟩
  | conversion site seen =>
    exact ⟨h.observeConversion hversion site seen,
      fun _ => observeConversion_counts h.limit_pos hversion site seen⟩
  | branch site seen =>
    exact ⟨h.observeBranch hversion site seen,
      fun _ => observeBranch_counts h.limit_pos hversion site seen⟩
  | callSignature site callee arguments result =>
    exact ⟨h.observeCallSignature hversion site _,
      fun _ => observeCallSignature_counts h.limit_pos hversion site _⟩
  | callSignatureWithIdentity site seen =>
    exact ⟨h.observeCallSignature hversion site seen,
      fun _ => observeCallSignature_counts h.limit_pos hversion site seen⟩
  | array site seen =>
    exact ⟨h.observeArray hversion site seen,
      fun _ => (observeArray_counts h.arrays_le hversion site seen).1⟩
  | arrayRaw site mode flags =>
    cases hdecode : decodeArray mode flags with
    | none =>
      have hstep : (t.step (.arrayRaw site mode flags)).1 = t := by
        simp [Table.step, Table.observeArrayRaw, hdecode]
      rw [hstep]
      exact ⟨h, fun _ => counts_refl t⟩
    | some seen =>
      have hstep : (t.step (.arrayRaw site mode flags)).1 = (t.observeArray site seen).1 := by
        simp [Table.step, Table.observeArrayRaw, hdecode]
      rw [hstep]
      exact ⟨h.observeArray hversion site seen,
        fun _ => (observeArray_counts h.arrays_le hversion site seen).1⟩
  | forget function => exact ⟨h.forgetFunction function, nofun⟩

end Steps

theorem Reachable.ok (h : Reachable t) : TableOk t := by
  induction h with
  | new capacity diversityLimit => exact .new capacity diversityLimit
  | step _ hversion op ih => exact (ih.step hversion op).1

/-! ## Cells and snapshots -/

/-- The same arities are recorded for every call and call site. -/
def SameArities (t t' : Table) : Prop :=
  (∀ f, (t.calls.get? f).map CallEntry.arities = (t'.calls.get? f).map CallEntry.arities) ∧
    ∀ site, (t.callSignatures.get? site).map CallSignatureEntry.arities =
      (t'.callSignatures.get? site).map CallSignatureEntry.arities

/-- Nothing that a snapshot shows and no recorded arity differs. -/
def SameFeedback (t t' : Table) : Prop :=
  (∀ epoch, t.snapshot epoch = t'.snapshot epoch) ∧ SameArities t t'

theorem cellState_megamorphic {s : BoundedSet α} :
    cellState s = .megamorphic ↔ s.megamorphic = true := by
  unfold cellState
  split
  case isTrue h => simp [h]
  case isFalse h =>
    simp only [h]
    split <;> simp

/-- The state and the list of a cell determine it. -/
theorem cell_ext {s s' : BoundedSet α} (hstate : cellState s = cellState s')
    (heq : s.observations = s'.observations) : s = s' := by
  refine BoundedSet.ext heq (Bool.eq_iff_iff.mpr ?_)
  rw [← cellState_megamorphic, hstate, cellState_megamorphic]

/-- An entry of `m` and one of `m'` under the same key have the same arities. -/
theorem arities_eq {κ : Type} [LinearOrder κ] {m m' : OrdMap κ α} {arities : α → BoundedSet Nat}
    (h : ∀ k, (m.get? k).map arities = (m'.get? k).map arities) {k : κ} {a a' : α}
    (ha : m.get? k = some a) (ha' : m'.get? k = some a') : arities a = arities a' := by
  have hk := h k
  rw [ha, ha'] at hk
  exact Option.some.inj hk

/-- The cells can be read back from a snapshot and the arities. -/
theorem cells_eq_iff (h : CellsLive t.cells) (h' : CellsLive t'.cells) :
    t.cells = t'.cells ↔ SameFeedback t t' := by
  refine ⟨fun hcells => ⟨fun epoch => ?_, fun f => ?_, fun site => ?_⟩, ?_⟩
  · simp only [Table.cells, Cells.mk.injEq] at hcells
    simp only [Table.snapshot, hcells]
  · rw [show t.calls = t'.calls from congrArg Cells.calls hcells]
  · rw [show t.callSignatures = t'.callSignatures from congrArg Cells.callSignatures hcells]
  rintro ⟨hsnapshot, hcallArities, hsignatureArities⟩
  have hsnap := hsnapshot 0
  simp only [Table.snapshot, Snapshot.mk.injEq, true_and] at hsnap
  obtain ⟨hentries, hcalls, hbinaries, hconversions, hbranches, hsignatures, harrays⟩ := hsnap
  have hentries' : t.entries = t'.entries := by
    refine eq_of_view (fun k e => Entry.snapshot k e) SnapshotEntry.key (fun _ _ => rfl)
      hentries fun k a a' _ _ heq => ?_
    exact cell_ext (congrArg SnapshotEntry.state heq) (congrArg SnapshotEntry.observations heq)
  have hcalls' : t.calls = t'.calls := by
    refine eq_of_view (fun k e => CallEntry.snapshot k e) CallSnapshot.function
      (fun _ _ => rfl) hcalls fun k a a' ha ha' heq => ?_
    exact CallEntry.ext (BoundedSet.Live.map_ext (h.calls k a ha) (h'.calls k a' ha')
      (congrArg CallSnapshot.arguments heq)) (arities_eq hcallArities ha ha')
  have hbinaries' : t.binaries = t'.binaries := by
    refine eq_of_view (fun k e => BinaryEntry.snapshot k e) BinarySnapshot.site
      (fun _ _ => rfl) hbinaries fun k a a' ha ha' heq => ?_
    obtain ⟨hlhs, hrhs, hresult⟩ := h.binaries k a ha
    obtain ⟨hlhs', hrhs', hresult'⟩ := h'.binaries k a' ha'
    exact BinaryEntry.ext (hlhs.ext hlhs' (congrArg BinarySnapshot.lhs heq))
      (hrhs.ext hrhs' (congrArg BinarySnapshot.rhs heq))
      (hresult.ext hresult' (congrArg BinarySnapshot.result heq))
      (congrArg BinarySnapshot.flags heq)
  have hconversions' : t.conversions = t'.conversions := by
    refine eq_of_view (fun k e => ConversionEntry.snapshot k e) ConversionSnapshot.site
      (fun _ _ => rfl) hconversions fun k a a' ha ha' heq => ?_
    obtain ⟨hoperand, hresult⟩ := h.conversions k a ha
    obtain ⟨hoperand', hresult'⟩ := h'.conversions k a' ha'
    exact ConversionEntry.ext (hoperand.ext hoperand' (congrArg ConversionSnapshot.operand heq))
      (hresult.ext hresult' (congrArg ConversionSnapshot.result heq))
  have hbranches' : t.branches = t'.branches := by
    refine eq_of_view (fun k e => BranchEntry.snapshot k e) BranchSnapshot.site
      (fun _ _ => rfl) hbranches fun k a a' ha ha' heq => ?_
    exact BranchEntry.ext ((h.branches k a ha).ext (h'.branches k a' ha')
      (congrArg BranchSnapshot.conditionTypes heq)) (congrArg BranchSnapshot.outcomes heq)
  have hsignatures' : t.callSignatures = t'.callSignatures := by
    refine eq_of_view (fun k e => CallSignatureEntry.snapshot k e) CallSignatureSnapshot.site
      (fun _ _ => rfl) hsignatures fun k a a' ha ha' heq => ?_
    obtain ⟨harguments, hresults⟩ := h.callSignatures k a ha
    obtain ⟨harguments', hresults'⟩ := h'.callSignatures k a' ha'
    exact CallSignatureEntry.ext
      (cell_ext (congrArg CallSignatureSnapshot.targetState heq)
        (congrArg CallSignatureSnapshot.targets heq))
      (arities_eq hsignatureArities ha ha')
      (BoundedSet.Live.map_ext harguments harguments'
        (congrArg CallSignatureSnapshot.arguments heq))
      (hresults.ext hresults' (congrArg CallSignatureSnapshot.results heq))
      (congrArg CallSignatureSnapshot.calleeIdentity heq)
      (congrArg CallSignatureSnapshot.calleeBytecodeIdentity heq)
  have harrays' : t.arrays.entries = t'.arrays.entries := by
    refine eq_of_view (fun k e => (⟨k, e⟩ : ArraySnapshot)) ArraySnapshot.site
      (fun _ _ => rfl) harrays fun k a a' _ _ heq => ?_
    exact congrArg ArraySnapshot.entry heq
  simp only [Table.cells, hentries', hcalls', hbinaries', hconversions', hbranches', hsignatures',
    harrays']

/-! ## Versions -/

/-- While the counters are short of their end: an observation advances the
version of the feedback table by one if it changes what a snapshot shows or the
recorded arities, and not at all otherwise; an observation of a shape advances
the version of the shape table by one exactly if the state or the set of
observations of a site changes. A site has one observation for a shape identity
and no more than the limit, and a megamorphic one stays as it is. -/
theorem feedback_versions_count_changes :
    (∀ t, Reachable t → t.version + 1 < 2 ^ 64 → ∀ op : Op, op.observes = true →
      (SameFeedback t (t.step op).1 → (t.step op).1.version = t.version) ∧
      (¬SameFeedback t (t.step op).1 → (t.step op).1.version = t.version + 1)) ∧
    ∀ polymorphicLimit seen,
      (∀ key site, (ShapeFeedbackTable.run polymorphicLimit seen).sites.get? key = some site →
        (site.observations.map fun o => o.shape.identity).Nodup ∧
          site.observations.length ≤ max polymorphicLimit 1) ∧
      ∀ key o,
        ((ShapeFeedbackTable.run polymorphicLimit seen).version + 1 < 2 ^ 64 →
          ((ShapeFeedbackTable.run polymorphicLimit seen).SameSites
              ((ShapeFeedbackTable.run polymorphicLimit seen).observe key o).1 →
            ((ShapeFeedbackTable.run polymorphicLimit seen).observe key o).1.version =
              (ShapeFeedbackTable.run polymorphicLimit seen).version) ∧
          (¬(ShapeFeedbackTable.run polymorphicLimit seen).SameSites
              ((ShapeFeedbackTable.run polymorphicLimit seen).observe key o).1 →
            ((ShapeFeedbackTable.run polymorphicLimit seen).observe key o).1.version =
              (ShapeFeedbackTable.run polymorphicLimit seen).version + 1)) ∧
        ∀ key' site, (ShapeFeedbackTable.run polymorphicLimit seen).sites.get? key' = some site →
          site.state = .megamorphic →
          ((ShapeFeedbackTable.run polymorphicLimit seen).observe key o).1.sites.get? key' =
            some site := by
  refine ⟨fun t ht hversion op hop => ?_, fun limit seen => ?_⟩
  · have hok := ht.ok
    obtain ⟨hok', hcounts⟩ := hok.step hversion op
    rw [← cells_eq_iff hok.live hok'.live, eq_comm]
    exact hcounts hop
  · obtain ⟨hsites, hlimit⟩ := ShapeFeedbackTable.run_sitesOk limit seen
    refine ⟨fun key site hsite => ?_, fun key o => ⟨fun hversion => ?_, fun key' site hsite hmega => ?_⟩⟩
    · have hok := hsites key site hsite
      exact ⟨hok.identities, hlimit ▸ hok.bounded⟩
    · exact ShapeFeedbackTable.observe_version hsites hversion key o
    · exact ShapeFeedbackTable.observe_megamorphic hsite hmega

/-- A function is called with one and with two arguments. -/
def twoArities : Table :=
  (Table.new 4 3).run [.call ⟨1, 1⟩ [.int32], .call ⟨1, 1⟩ [.int32, .int32]]

theorem twoArities_reachable : Reachable twoArities :=
  .step (.step (.new 4 3) (by decide) (.call ⟨1, 1⟩ [.int32])) (by decide +kernel)
    (.call ⟨1, 1⟩ [.int32, .int32])

/-- The last call is found in the memo when it is repeated; a third arity is
counted. -/
theorem feedback_versions_repeated_call :
    (twoArities.step (.call ⟨1, 1⟩ [.int32, .int32])).1.version = 2 ∧
      (twoArities.step (.call ⟨1, 1⟩ [])).1.version = 3 := by
  have hcounts := feedback_versions_count_changes.1 twoArities twoArities_reachable (by decide +kernel)
  constructor
  · have hmemo : (twoArities.step (.call ⟨1, 1⟩ [.int32, .int32])).1 = twoArities := rfl
    refine (hcounts (.call ⟨1, 1⟩ [.int32, .int32]) rfl).1 ?_
    rw [hmemo]
    exact ⟨fun _ => rfl, fun _ => rfl, fun _ => rfl⟩
  · refine (hcounts (.call ⟨1, 1⟩ []) rfl).2 fun hsame => ?_
    exact absurd (hsame.2.1 ⟨1, 1⟩) (by decide +kernel)

/-- A third arity advances the version although no snapshot shows it. -/
theorem feedback_version_unseen_arity : ∃ t, Reachable t ∧ t.version + 1 < 2 ^ 64 ∧
    ∃ op : Op, op.observes = true ∧ (∀ epoch, (t.step op).1.snapshot epoch = t.snapshot epoch) ∧
      (t.step op).1.version = t.version + 1 := by
  refine ⟨twoArities, twoArities_reachable, by decide +kernel, .call ⟨1, 1⟩ [], rfl,
    fun epoch => ?_, by decide +kernel⟩
  have hzero : (twoArities.step (.call ⟨1, 1⟩ [])).1.snapshot 0 = twoArities.snapshot 0 := by
    decide +kernel
  exact congrArg (fun s => { s with epoch := epoch }) hzero

end Feedback

end QuickJit
