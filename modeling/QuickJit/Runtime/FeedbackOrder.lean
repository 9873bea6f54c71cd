import QuickJit.Runtime.FeedbackSets

/-
  Neither the order of observations, nor their repetition, nor the memos show.

  A snapshot has one cell for every key with observations, in the order of the
  keys (`CellsAre`), and every cell shows the set of its observations
  (`Describes`). Two snapshots that describe the same sets are `Similar`, and
  what the compiler asks a snapshot is the same for similar ones. The memos are
  covered because a table without them records the same history; their answers
  are those of the cells as long as the version does not wrap.
-/

namespace QuickJit

namespace Feedback

/-! ## The cells of a snapshot -/

/-- One cell for each key with events, showing what `R` says of them. -/
structure CellsAre {κ β ε : Type} [LinearOrder κ] (R : List ε → β → Prop) (key : β → κ)
    (cells : List β) (events : κ → List ε) : Prop where
  sorted : (cells.map key).Pairwise (· < ·)
  mem_iff : ∀ k, k ∈ cells.map key ↔ events k ≠ []
  shows : ∀ c ∈ cells, R (events (key c)) c

section Cells

variable {κ α β ε : Type} [LinearOrder κ] {events events' : κ → List ε}

theorem cellsAre_of_tracks {R : List ε → α → Prop} {R' : List ε → β → Prop} {m : OrdMap κ α}
    (h : Tracks R m events) (view : κ → α → β) (key : β → κ) (hkey : ∀ k a, key (view k a) = k)
    (hview : ∀ k a, events k ≠ [] → R (events k) a → R' (events k) (view k a)) :
    CellsAre R' key (m.entries.map fun e => view e.1 e.2) events := by
  have hkeys : (m.entries.map fun e => view e.1 e.2).map key = m.keys := by
    rw [List.map_map]
    exact List.map_congr_left fun e _ => hkey e.1 e.2
  refine ⟨hkeys ▸ m.keys_sorted, fun k => ?_, fun c hc => ?_⟩
  · rw [hkeys, OrdMap.mem_keys]
    refine ⟨?_, fun hne => ?_⟩
    · rintro ⟨a, ha⟩
      exact (h.mem ha).1
    · obtain ⟨a, ha, -⟩ := h.present k hne
      exact ⟨a, ha⟩
  · obtain ⟨⟨k, a⟩, hmem, rfl⟩ := List.mem_map.mp hc
    obtain ⟨hne, hR⟩ := h.mem (OrdMap.mem_entries.mp hmem)
    rw [hkey]
    exact hview k a hne hR

/-- Cells of the same keys correspond, one by one. -/
theorem CellsAre.forall₂ {R : List ε → β → Prop} {S : β → β → Prop} {key : β → κ}
    {cells cells' : List β} (h : CellsAre R key cells events) (h' : CellsAre R key cells' events')
    (hset : ∀ k, SameSet (events k) (events' k))
    (hS : ∀ c c', key c = key c' → events (key c) ≠ [] → R (events (key c)) c →
      R (events' (key c)) c' → S c c') : List.Forall₂ S cells cells' := by
  have hne : ∀ k, events k ≠ [] ↔ events' k ≠ [] := fun k => by
    rw [ne_eq, ne_eq, List.eq_nil_iff_forall_not_mem, List.eq_nil_iff_forall_not_mem]
    simp only [hset k _]
  have hkeys : cells.map key = cells'.map key := by
    refine eq_of_sorted h.sorted h'.sorted fun k => ?_
    rw [h.mem_iff k, hne k, h'.mem_iff k]
  refine forall₂_of_keys hkeys fun c hc c' hc' hkey => ?_
  refine hS c c' hkey ((h.mem_iff _).mp (List.mem_map_of_mem hc)) (h.shows c hc) ?_
  rw [hkey]
  exact h'.shows c' hc'

end Cells

/-- The snapshot shows what has been observed, and only that. -/
structure Describes (limit arrayLimit : Nat) (events : List Event) (s : Snapshot) : Prop where
  entries : CellsAre (TypeCell limit) SnapshotEntry.key s.entries (typesAt events)
  calls : CellsAre (CallCell limit) CallSnapshot.function s.calls (callsAt events)
  binaries : CellsAre (BinaryCell limit) BinarySnapshot.site s.binaries (binariesAt events)
  conversions :
    CellsAre (ConversionCell limit) ConversionSnapshot.site s.conversions (conversionsAt events)
  branches : CellsAre (BranchCell limit) BranchSnapshot.site s.branches (branchesAt events)
  callSignatures : CellsAre (SignatureCell limit) CallSignatureSnapshot.site s.callSignatures
    (signaturesAt events)
  arrays : CellsAre (fun events c => ArrayHolds arrayLimit events c.entry) ArraySnapshot.site
    s.arrays (arraysAt events)

theorem Records.describes {events : List Event} {t : Table} (h : Records events t)
    (hlimit : 0 < t.diversityLimit) (epoch : Nat) :
    Describes t.diversityLimit t.arrays.diversityLimit events (t.snapshot epoch) where
  entries := cellsAre_of_tracks h.entries (fun k e => Entry.snapshot k e) _ (fun _ _ => rfl)
    fun k _ _ hR => typeCell k hR
  calls := cellsAre_of_tracks h.calls (fun k e => e.snapshot k) _ (fun _ _ => rfl)
    fun k _ hne hR => callCell k hlimit hne hR
  binaries := cellsAre_of_tracks h.binaries (fun k e => e.snapshot k) _ (fun _ _ => rfl)
    fun k _ hne hR => binaryCell k hne hR
  conversions := cellsAre_of_tracks h.conversions (fun k e => e.snapshot k) _ (fun _ _ => rfl)
    fun k _ hne hR => conversionCell k hne hR
  branches := cellsAre_of_tracks h.branches (fun k e => e.snapshot k) _ (fun _ _ => rfl)
    fun k _ hne hR => branchCell k hne hR
  callSignatures := cellsAre_of_tracks h.callSignatures (fun k e => e.snapshot k) _
    (fun _ _ => rfl) fun k _ hne hR => signatureCell k hlimit hne hR
  arrays := cellsAre_of_tracks h.arrays ArraySnapshot.mk _ (fun _ _ => rfl) fun _ _ _ hR => hR

/-! ## Similar snapshots -/

/-- The same observations for every cell, in any order and number. -/
structure SameEvidence (events events' : List Event) : Prop where
  types : ∀ key, SameSet (typesAt events key) (typesAt events' key)
  calls : ∀ function, SameSet (callsAt events function) (callsAt events' function)
  binaries : ∀ site, SameSet (binariesAt events site) (binariesAt events' site)
  conversions : ∀ site, SameSet (conversionsAt events site) (conversionsAt events' site)
  branches : ∀ site, SameSet (branchesAt events site) (branchesAt events' site)
  signatures : ∀ site, SameSet (signaturesAt events site) (signaturesAt events' site)
  arrays : ∀ site, SameSet (arraysAt events site) (arraysAt events' site)

structure SimilarType (c c' : SnapshotEntry) : Prop where
  key : c.key = c'.key
  state : c.state = c'.state
  observations : c.observations.Perm c'.observations

structure SimilarCall (c c' : CallSnapshot) : Prop where
  function : c.function = c'.function
  state : c.state = c'.state
  arguments : List.Forall₂ List.Perm c.arguments c'.arguments
  stableTypes : c.stableTypes = c'.stableTypes
  stableArity : c.stableArity = c'.stableArity

structure SimilarBinary (c c' : BinarySnapshot) : Prop where
  site : c.site = c'.site
  state : c.state = c'.state
  lhs : c.lhs.Perm c'.lhs
  rhs : c.rhs.Perm c'.rhs
  result : c.result.Perm c'.result
  flags : c.flags = c'.flags

structure SimilarConversion (c c' : ConversionSnapshot) : Prop where
  site : c.site = c'.site
  state : c.state = c'.state
  operand : c.operand.Perm c'.operand
  result : c.result.Perm c'.result

structure SimilarBranch (c c' : BranchSnapshot) : Prop where
  site : c.site = c'.site
  state : c.state = c'.state
  conditionTypes : c.conditionTypes.Perm c'.conditionTypes
  outcomes : c.outcomes = c'.outcomes

/-- The target list of a megamorphic site may differ. -/
structure SimilarSignature (c c' : CallSignatureSnapshot) : Prop where
  site : c.site = c'.site
  state : c.state = c'.state
  targetState : c.targetState = c'.targetState
  joins : c.targetState = .megamorphic → c.state = .megamorphic
  targets : c.targetState ≠ .megamorphic → c.targets.Perm c'.targets
  stableArity : c.stableArity = c'.stableArity
  arguments : List.Forall₂ List.Perm c.arguments c'.arguments
  results : c.results.Perm c'.results
  calleeIdentity : c.calleeIdentity = c'.calleeIdentity
  calleeBytecodeIdentity : c.calleeBytecodeIdentity = c'.calleeBytecodeIdentity

/-- So may the access of a megamorphic array site. -/
structure SimilarArray (c c' : ArraySnapshot) : Prop where
  site : c.site = c'.site
  state : c.entry.state = c'.entry.state
  modes : c.entry.modes = c'.entry.modes
  hazards : c.entry.hazards = c'.entry.hazards
  access : c.entry.state ≠ .megamorphic → c.entry.access = c'.entry.access

/-- Snapshots that differ in the order inside lists only. -/
structure Similar (s s' : Snapshot) : Prop where
  epoch : s.epoch = s'.epoch
  entries : List.Forall₂ SimilarType s.entries s'.entries
  calls : List.Forall₂ SimilarCall s.calls s'.calls
  binaries : List.Forall₂ SimilarBinary s.binaries s'.binaries
  conversions : List.Forall₂ SimilarConversion s.conversions s'.conversions
  branches : List.Forall₂ SimilarBranch s.branches s'.branches
  callSignatures : List.Forall₂ SimilarSignature s.callSignatures s'.callSignatures
  arrays : List.Forall₂ SimilarArray s.arrays s'.arrays

section Similarity

variable {limit : Nat}

theorem similarCall {rows rows' : List (List ObservedType)} {c c' : CallSnapshot}
    (hkey : c.function = c'.function) (hset : SameSet rows rows') (h : CallCell limit rows c)
    (h' : CallCell limit rows' c') : SimilarCall c c' := by
  refine ⟨hkey, ?_, h.arguments.perm h'.arguments hset, Option.ext fun types => ?_,
    Option.ext fun n => ?_⟩
  · rw [h.state, h'.state, stateOf_congr limit (hset.map _), slotStates_congr limit hset]
  · rw [h.stableTypes, h'.stableTypes]
    simp only [hset _]
  · rw [h.stableArity, h'.stableArity]
    simp only [hset _]

theorem similarBinary {events events' : List BinaryEvent} {c c' : BinarySnapshot}
    (hkey : c.site = c'.site) (hset : SameSet events events') (h : BinaryCell limit events c)
    (h' : BinaryCell limit events' c') : SimilarBinary c c' := by
  refine ⟨hkey, ?_, h.lhs.perm h'.lhs (hset.map _), h.rhs.perm h'.rhs (hset.map _),
    h.result.perm h'.result (hset.map _), h.flags.unique h'.flags hset⟩
  rw [h.state, h'.state, stateOf_congr limit (hset.map BinaryEvent.lhs),
    stateOf_congr limit (hset.map BinaryEvent.rhs), stateOf_congr limit (hset.map BinaryEvent.result)]

theorem similarConversion {events events' : List ConversionEvent} {c c' : ConversionSnapshot}
    (hkey : c.site = c'.site) (hset : SameSet events events') (h : ConversionCell limit events c)
    (h' : ConversionCell limit events' c') : SimilarConversion c c' := by
  refine ⟨hkey, ?_, h.operand.perm h'.operand (hset.map _), h.result.perm h'.result (hset.map _)⟩
  rw [h.state, h'.state, stateOf_congr limit (hset.map ConversionEvent.operand),
    stateOf_congr limit (hset.map ConversionEvent.result)]

theorem mixed_congr {α γ : Type} {f : α → γ} {l l' : List α} (hset : SameSet l l') :
    Mixed f l ↔ Mixed f l' := by
  simp only [Mixed, hset _]

theorem similarBranch {events events' : List BranchEvent} {c c' : BranchSnapshot}
    (hkey : c.site = c'.site) (hset : SameSet events events') (h : BranchCell limit events c)
    (h' : BranchCell limit events' c') : SimilarBranch c c' := by
  refine ⟨hkey, ?_, h.conditionTypes.perm h'.conditionTypes (hset.map _),
    h.outcomes.unique h'.outcomes hset⟩
  rw [h.state, h'.state, stateOf_congr limit (hset.map BranchEvent.conditionType)]
  simp only [mixed_congr hset]

theorem similarSignature {events events' : List CallSignatureEvent} {c c' : CallSignatureSnapshot}
    (hkey : c.site = c'.site) (hset : SameSet events events') (hne : events ≠ [])
    (h : SignatureCell limit events c) (h' : SignatureCell limit events' c') :
    SimilarSignature c c' := by
  have hmixed : MixedCallees events ↔ MixedCallees events' :=
    or_congr (mixed_congr hset) (mixed_congr hset)
  have htargets : targetsState limit events = targetsState limit events' := by
    unfold targetsState
    simp only [hmixed, stateOf_congr limit (hset.map CallSignatureEvent.callee)]
  have hsame : c.targetState ≠ .megamorphic → ¬MixedCallees events := by
    intro hmega hm
    rw [h.targetState, targetsState, if_pos hm] at hmega
    exact hmega rfl
  refine ⟨hkey, ?_, ?_, fun hmega => ?_, fun hmega => ?_, Option.ext fun n => ?_,
    h.arguments.perm h'.arguments (hset.map _), h.results.perm h'.results (hset.map _),
    h.identity.unique h'.identity hset hne, h.bytecodeIdentity.unique h'.bytecodeIdentity hset hne⟩
  · rw [h.state, h'.state, htargets, slotStates_congr limit (hset.map CallSignatureEvent.arguments),
      stateOf_congr limit (hset.map fun e => e.arguments.length),
      stateOf_congr limit (hset.map CallSignatureEvent.result)]
  · rw [h.targetState, h'.targetState, htargets]
  · rw [h.state, joined_megamorphic, ← h.targetState, hmega]
    exact List.mem_cons_self
  · exact (h.targets (hsame hmega)).perm (h'.targets (mt hmixed.mpr (hsame hmega))) (hset.map _)
  · rw [h.stableArity, h'.stableArity]
    simp only [hset _]

theorem similarArray {events events' : List ArrayEvent} {c c' : ArraySnapshot}
    (hkey : c.site = c'.site) (hset : SameSet events events') (h : ArrayHolds limit events c.entry)
    (h' : ArrayHolds limit events' c'.entry) : SimilarArray c c' := by
  have hmodes : modesOf events = modesOf events' := toFinset_congr (hset.map _)
  refine ⟨hkey, ?_, ?_, h.hazards.unique h'.hazards hset, fun hmega => ?_⟩
  · rw [h.state, h'.state]
    simp only [arrayState, mixed_congr hset, hmodes]
  · rw [h.modes, h'.modes, hmodes]
  · -- all accesses are the same
    obtain ⟨a, ha, haccess⟩ := List.mem_map.mp (List.mem_of_getLast? h.access)
    obtain ⟨b, hb, hbccess⟩ := List.mem_map.mp (List.mem_of_getLast? h'.access)
    by_contra hne
    rw [h.state, ne_eq, arrayState_megamorphic, not_or] at hmega
    exact hmega.1 ⟨a, ha, b, (hset b).mpr hb, haccess.symm ▸ hbccess.symm ▸ hne⟩

/-- Only the observed sets show. -/
theorem Describes.similar {arrayLimit : Nat} {events events' : List Event} {s s' : Snapshot}
    (h : Describes limit arrayLimit events s) (h' : Describes limit arrayLimit events' s')
    (hepoch : s.epoch = s'.epoch) (hsame : SameEvidence events events') : Similar s s' where
  epoch := hepoch
  entries := h.entries.forall₂ h'.entries hsame.types fun c _ hkey _ hR hR' =>
    ⟨hkey, by rw [hR.state, hR'.state, stateOf_congr limit (hsame.types c.key)],
      hR.observations.perm hR'.observations (hsame.types c.key)⟩
  calls := h.calls.forall₂ h'.calls hsame.calls fun c _ hkey _ hR hR' =>
    similarCall hkey (hsame.calls c.function) hR hR'
  binaries := h.binaries.forall₂ h'.binaries hsame.binaries fun c _ hkey _ hR hR' =>
    similarBinary hkey (hsame.binaries c.site) hR hR'
  conversions := h.conversions.forall₂ h'.conversions hsame.conversions fun c _ hkey _ hR hR' =>
    similarConversion hkey (hsame.conversions c.site) hR hR'
  branches := h.branches.forall₂ h'.branches hsame.branches fun c _ hkey _ hR hR' =>
    similarBranch hkey (hsame.branches c.site) hR hR'
  callSignatures := h.callSignatures.forall₂ h'.callSignatures hsame.signatures
    fun c _ hkey hne hR hR' => similarSignature hkey (hsame.signatures c.site) hne hR hR'
  arrays := h.arrays.forall₂ h'.arrays hsame.arrays fun c _ hkey _ hR hR' =>
    similarArray hkey (hsame.arrays c.site) hR hR'

end Similarity

/-! ## The same answers -/

section Lists

variable {α β : Type} {S : α → β → Prop} {l : List α} {l' : List β}

theorem forall₂_find? {p : α → Bool} {q : β → Bool} (h : List.Forall₂ S l l')
    (hpq : ∀ a b, S a b → p a = q b) : Option.Rel S (l.find? p) (l'.find? q) := by
  induction h with
  | nil => exact .none
  | cons hS _ ih =>
    rw [List.find?_cons, List.find?_cons, hpq _ _ hS]
    cases q _ with
    | true => exact .some hS
    | false => exact ih

theorem forall₂_filter {p : α → Bool} {q : β → Bool} (h : List.Forall₂ S l l')
    (hpq : ∀ a b, S a b → p a = q b) : List.Forall₂ S (l.filter p) (l'.filter q) := by
  induction h with
  | nil => exact .nil
  | cons hS _ ih =>
    rw [List.filter_cons, List.filter_cons, hpq _ _ hS]
    cases q _ with
    | true => exact .cons hS ih
    | false => exact ih

theorem forall₂_countP {p : α → Bool} {q : β → Bool} (h : List.Forall₂ S l l')
    (hpq : ∀ a b, S a b → p a = q b) : l.countP p = l'.countP q := by
  induction h with
  | nil => rfl
  | cons hS _ ih => rw [List.countP_cons, List.countP_cons, hpq _ _ hS, ih]

theorem single_perm {l l' : List α} (h : l.Perm l') : single l = single l' := by
  have hlength := h.length_eq
  cases l with
  | nil => rw [List.nil_perm.mp h]
  | cons a rest =>
    cases rest with
    | nil => rw [List.singleton_perm.mp h]
    | cons b rest =>
      cases l' with
      | nil => cases hlength
      | cons a' rest' =>
        cases rest' with
        | nil => simp at hlength
        | cons => rfl

theorem mapM_single {l l' : List (List α)} (f : α → Option β) (h : List.Forall₂ List.Perm l l') :
    (l.mapM fun listed => (single listed).bind f) =
      l'.mapM fun listed => (single listed).bind f := by
  induction h with
  | nil => rfl
  | cons hperm _ ih => rw [List.mapM_cons, List.mapM_cons, single_perm hperm, ih]

/-- A list of at most one element has one order. -/
theorem perm_toList {l l' : List α} (h : l.Perm l') (a : Option α) :
    l = a.toList ↔ l' = a.toList := by
  cases a with
  | none =>
    rw [Option.toList_none]
    exact ⟨fun hl => List.nil_perm.mp (hl ▸ h), fun hl => List.perm_nil.mp (hl ▸ h)⟩
  | some a =>
    rw [Option.toList_some]
    exact ⟨fun hl => List.perm_singleton.mp (hl ▸ h.symm), fun hl => List.perm_singleton.mp (hl ▸ h)⟩

end Lists

section Answers

variable {s s' : Snapshot}

theorem returnType_similar {l l' : List SnapshotEntry} (h : List.Forall₂ SimilarType l l') :
    ∀ prior, returnType l prior = returnType l' prior := by
  induction h with
  | nil => exact fun _ => rfl
  | cons hS _ ih =>
    intro prior
    simp only [returnType, hS.state, single_perm hS.observations, ih]

theorem agrees_similar {c c' : BinarySnapshot} (h : SimilarBinary c c')
    (expected : Option ObservedType) : c.agrees expected = c'.agrees expected := by
  simp only [BinarySnapshot.agrees, h.state, perm_toList h.lhs, perm_toList h.rhs,
    perm_toList h.result]

theorem Similar.boundedSpecialization (h : Similar s s') (function : FunctionKey) :
    s.boundedSpecialization function = s'.boundedSpecialization function := by
  have hcall : Option.Rel SimilarCall (s.callAt function) (s'.callAt function) :=
    forall₂_find? h.calls fun c c' hc => by rw [hc.function]
  have hreturns := returnType_similar (forall₂_filter h.entries
    (p := fun e => decide (e.key.function = function ∧ e.key.kind = .exit))
    (q := fun e => decide (e.key.function = function ∧ e.key.kind = .exit))
    fun c c' hc => by rw [hc.key]) none
  have hbinaries : ∀ expected,
      (s.binaries.filter fun b => b.site.function = function).countP (·.agrees expected) =
        (s'.binaries.filter fun b => b.site.function = function).countP (·.agrees expected) :=
    fun expected => forall₂_countP (forall₂_filter h.binaries fun c c' hc => by rw [hc.site])
      fun c c' hc => agrees_similar hc expected
  unfold Snapshot.boundedSpecialization
  rw [h.epoch, hreturns]
  simp only [hbinaries]
  generalize s.callAt function = call at hcall
  generalize s'.callAt function = call' at hcall
  cases hcall with
  | none => rfl
  | some hc => simp only [Option.bind_eq_bind, Option.bind_some, hc.state, hc.stableArity, hc.stableTypes]

theorem Similar.callSignatureAt (h : Similar s s') (site : Site) :
    Option.Rel SimilarSignature (s.callSignatureAt site) (s'.callSignatureAt site) :=
  forall₂_find? h.callSignatures fun c c' hc => by rw [hc.site]

theorem Similar.callSpecializationAt (h : Similar s s') (site : Site) :
    s.callSpecializationAt site = s'.callSpecializationAt site := by
  have hcall := h.callSignatureAt site
  unfold Snapshot.callSpecializationAt
  rw [h.epoch]
  generalize s.callSignatureAt site = call at hcall
  generalize s'.callSignatureAt site = call' at hcall
  cases hcall with
  | none => rfl
  | @some c c' hc =>
    by_cases hmono : c.state = .monomorphic
    · have hmega : c.targetState ≠ .megamorphic := fun hmega => by
        rw [hc.joins hmega] at hmono
        cases hmono
      simp only [Option.bind_eq_bind, Option.bind_some, ← hc.state, single_perm (hc.targets hmega),
        hc.stableArity, hc.arguments.length_eq, mapM_single _ hc.arguments, single_perm hc.results,
        hc.calleeIdentity, hc.calleeBytecodeIdentity]
    · simp only [Option.bind_eq_bind, Option.bind_some, ← hc.state, ne_eq, hmono,
        not_false_eq_true, if_true]
      rfl

theorem Similar.callLinkAt (h : Similar s s') (site : Site) :
    s.callLinkAt site = s'.callLinkAt site := by
  have hcall := h.callSignatureAt site
  unfold Snapshot.callLinkAt
  rw [h.epoch]
  generalize s.callSignatureAt site = call at hcall
  generalize s'.callSignatureAt site = call' at hcall
  cases hcall with
  | none => rfl
  | @some c c' hc =>
    by_cases hmono : c.targetState = .monomorphic
    · have hmega : c.targetState ≠ .megamorphic := fun hmega => by
        rw [hmega] at hmono
        cases hmono
      simp only [Option.bind_eq_bind, Option.bind_some, ← hc.targetState,
        single_perm (hc.targets hmega), hc.calleeIdentity, hc.calleeBytecodeIdentity]
    · simp only [Option.bind_eq_bind, Option.bind_some, ← hc.targetState, ne_eq, hmono,
        not_false_eq_true, if_true]
      rfl

/-- Nothing that is asked of the snapshots tells them apart. -/
structure SameAnswers (s s' : Snapshot) : Prop where
  similar : Similar s s'
  boundedSpecialization : ∀ function,
    s.boundedSpecialization function = s'.boundedSpecialization function
  callSpecializationAt : ∀ site, s.callSpecializationAt site = s'.callSpecializationAt site
  callLinkAt : ∀ site, s.callLinkAt site = s'.callLinkAt site

theorem Similar.sameAnswers (h : Similar s s') : SameAnswers s s' :=
  ⟨h, h.boundedSpecialization, h.callSpecializationAt, h.callLinkAt⟩

end Answers

/-! ## The answers of the memo -/

/-- A memo of the current version has the state of its cell. -/
structure MemosOk (t : Table) : Prop where
  version_le : ∀ r, some r ∈ t.recentTypes → r.version ≤ t.version
  state : ∀ r, some r ∈ t.recentTypes → r.version = t.version →
    ∃ entry, t.entries.get? r.key = some entry ∧ cellState entry = r.state

section Memos

variable {t : Table}

/-- The memos after an operation: those before, and one of a cell just updated. -/
theorem recentTypes_step {op : Op} {r : RecentType} (h : some r ∈ (t.step op).1.recentTypes) :
    some r ∈ t.recentTypes ∨ (r.version = (t.step op).1.version ∧
      ∃ entry, (t.step op).1.entries.get? r.key = some entry ∧ cellState entry = r.state) := by
  have hentry : ∀ key entry before o,
      some r ∈ (t.recordEntry key entry before o).1.recentTypes → some r ∈ t.recentTypes ∨
        (r.version = (t.recordEntry key entry before o).1.version ∧ ∃ e,
          (t.recordEntry key entry before o).1.entries.get? r.key = some e ∧
            cellState e = r.state) := by
    intro key entry before o hr
    rcases List.mem_or_eq_of_mem_set hr with hr | hr
    · exact .inl hr
    · cases hr
      exact .inr ⟨rfl, _, OrdMap.get?_insert_self _ _ _, rfl⟩
  have htype : ∀ key o, some r ∈ (t.observeType key o).1.recentTypes → some r ∈ t.recentTypes ∨
      (r.version = (t.observeType key o).1.version ∧ ∃ e,
        (t.observeType key o).1.entries.get? r.key = some e ∧ cellState e = r.state) := by
    intro key o
    unfold Table.observeType
    split
    · exact fun hr => .inl hr
    · unfold Table.recordType
      split
      · exact hentry _ _ _ _
      · split
        · exact fun hr => .inl hr
        · exact hentry _ _ _ _
  cases op with
  | type key o => exact htype key o h
  | exit site o => exact htype _ o h
  | call function arguments =>
    simp only [Table.step, Table.observeCall] at h
    split at h <;> exact .inl h
  | arrayRaw site mode flags =>
    simp only [Table.step, Table.observeArrayRaw] at h
    split at h <;> exact .inl h
  | forget function => simp [Table.step, Table.forgetFunction] at h
  | _ => exact .inl h

theorem MemosOk.step (h : MemosOk t) (hok : TableOk t) (hversion : t.version + 1 < 2 ^ 64)
    (op : Op) : MemosOk (t.step op).1 ∧ (t.step op).1.version ≤ t.version + 1 := by
  cases hop : op.observes with
  | false =>
    -- a function is forgotten, and all memos
    cases op with
    | forget function =>
      have hnone : ∀ r, some r ∉ (t.step (.forget function)).1.recentTypes := fun r hr => by
        simp [Table.step, Table.forgetFunction] at hr
      exact ⟨⟨fun r hr => absurd hr (hnone r), fun r hr => absurd hr (hnone r)⟩, Nat.le_succ _⟩
    | _ => cases hop
  | true =>
    obtain ⟨hsame, hchanged⟩ := (hok.step hversion op).2 hop
    by_cases hcells : (t.step op).1.cells = t.cells
    · have hentries : (t.step op).1.entries = t.entries := congrArg Cells.entries hcells
      have hv := hsame hcells
      refine ⟨⟨fun r hr => ?_, fun r hr hrv => ?_⟩, by omega⟩
      · rcases recentTypes_step hr with hr | ⟨hrv, -⟩
        · rw [hv]
          exact h.version_le r hr
        · exact hrv.le
      · rcases recentTypes_step hr with hr | ⟨-, hstate⟩
        · rw [hentries]
          exact h.state r hr (hrv.trans hv)
        · exact hstate
    · have hv := hchanged hcells
      refine ⟨⟨fun r hr => ?_, fun r hr hrv => ?_⟩, by omega⟩
      · rcases recentTypes_step hr with hr | ⟨hrv, -⟩
        · have := h.version_le r hr
          omega
        · exact hrv.le
      · rcases recentTypes_step hr with hr | ⟨-, hstate⟩
        · have := h.version_le r hr
          omega
        · exact hstate

/-- In a run short enough for the version. -/
theorem run_memosOk (capacity limit : Nat) (ops : List Op) (hlength : ops.length + 1 < 2 ^ 64) :
    MemosOk ((Table.new capacity limit).run ops) := by
  have hrun : ∀ (ops : List Op) (t : Table), TableOk t → MemosOk t →
      t.version + ops.length + 1 < 2 ^ 64 → MemosOk (t.run ops) := by
    intro ops
    induction ops with
    | nil => exact fun t _ hmemos _ => hmemos
    | cons op ops ih =>
      intro t hok hmemos hlt
      rw [List.length_cons] at hlt
      obtain ⟨hmemos', hle⟩ := hmemos.step hok (by omega) op
      exact ih (t.step op).1 (hok.step (by omega) op).1 hmemos' (by omega)
  refine hrun ops _ (.new capacity limit) ⟨?_, ?_⟩ ?_
  · exact fun r hr => by simp [Table.new] at hr
  · exact fun r hr => by simp [Table.new] at hr
  · have hzero : (Table.new capacity limit).version = 0 := rfl
    omega

/-- The memo answers what a look at the cell would. -/
theorem observeType_answer {events : List Event} (h : Records events t) (hmemos : MemosOk t)
    (key : Key) (observation : ObservedType) :
    (t.observeType key observation).2 = (t.recordType key observation).2 := by
  unfold Table.observeType
  split
  case h_2 => rfl
  case h_1 recent hrecent =>
    obtain ⟨rfl, rfl, hversion⟩ : recent.key = key ∧ recent.observation = observation ∧
        recent.version = t.version := by simpa using List.find?_some hrecent
    have hmem := List.reduceOption_mem_iff.mp (List.mem_of_find?_eq_some hrecent)
    obtain ⟨entry, hget, hstate⟩ := hmemos.state recent hmem hversion
    have hsame : entry.observe t.diversityLimit recent.observation = entry :=
      (h.entries.mem hget).2.observe_mem (h.recentTypes recent hmem)
    have hrecord : (t.recordType recent.key recent.observation).2 =
        cellState (entry.observe t.diversityLimit recent.observation) := by
      rw [Table.recordType, hget]
      rfl
    rw [hrecord, hsame, hstate]

end Memos

/-! ## The main result -/

/-- A table without memos answers the same. -/
theorem sameAnswers_of_records {events events' : List Event} {t t' : Table}
    (h : Records events t) (h' : Records events' t') (hconfig : t.config = t'.config)
    (hlimit : 0 < t.diversityLimit) (hsame : SameEvidence events events') (epoch : Nat) :
    SameAnswers (t.snapshot epoch) (t'.snapshot epoch) := by
  have hdiversity : t.diversityLimit = t'.diversityLimit := congrArg (fun c => c.2.1) hconfig
  have harrays : t.arrays.diversityLimit = t'.arrays.diversityLimit :=
    congrArg (fun c => c.2.2.2) hconfig
  have hdescribes := h'.describes (hdiversity ▸ hlimit) epoch
  rw [← hdiversity, ← harrays] at hdescribes
  exact ((h.describes hlimit epoch).similar hdescribes rfl hsame).sameAnswers

theorem SameEvidence.refl (events : List Event) : SameEvidence events events :=
  ⟨fun _ _ => Iff.rfl, fun _ _ => Iff.rfl, fun _ _ => Iff.rfl, fun _ _ => Iff.rfl,
    fun _ _ => Iff.rfl, fun _ _ => Iff.rfl, fun _ _ => Iff.rfl⟩

/-- Feedback is the bounded set of what was observed: every cell of a snapshot is
described by the observations of the cell, histories with the same observations
give the same answers, and so does a table without memos. -/
theorem feedback_is_bounded_set (capacity limit epoch : Nat) (ops : List Op)
    (hfits : Fits capacity (history ops)) :
    Describes (max limit 1) (min (max limit 1) 3) (history ops)
        (((Table.new capacity limit).run ops).snapshot epoch) ∧
      (∀ ops', Fits capacity (history ops') → SameEvidence (history ops) (history ops') →
        SameAnswers (((Table.new capacity limit).run ops).snapshot epoch)
          (((Table.new capacity limit).run ops').snapshot epoch)) ∧
      SameAnswers (((Table.new capacity limit).run ops).snapshot epoch)
        (((Table.new capacity limit).runPlain ops).snapshot epoch) ∧
      (ops.length + 1 < 2 ^ 64 → ∀ key observation,
        (((Table.new capacity limit).run ops).observeType key observation).2 =
          (((Table.new capacity limit).run ops).recordType key observation).2) := by
  obtain ⟨hrecords, hconfig⟩ := run_records limit hfits
  have hlimit : ((Table.new capacity limit).run ops).diversityLimit = max limit 1 :=
    congrArg (fun c => c.2.1) hconfig
  have harrays : ((Table.new capacity limit).run ops).arrays.diversityLimit =
      min (max limit 1) 3 := congrArg (fun c => c.2.2.2) hconfig
  have hpos : 0 < ((Table.new capacity limit).run ops).diversityLimit := by
    rw [hlimit]
    omega
  refine ⟨?_, fun ops' hfits' hsame => ?_, ?_, fun hlength key observation => ?_⟩
  · rw [← harrays, ← hlimit]
    exact hrecords.describes hpos epoch
  · obtain ⟨hrecords', hconfig'⟩ := run_records limit hfits'
    exact sameAnswers_of_records hrecords hrecords' (hconfig.trans hconfig'.symm) hpos hsame epoch
  · obtain ⟨hrecords', hconfig'⟩ := runPlain_records limit hfits
    exact sameAnswers_of_records hrecords hrecords' (hconfig.trans hconfig'.symm) hpos (.refl _) epoch
  · exact observeType_answer hrecords (run_memosOk capacity limit ops hlength) key observation

/-- A function that is called with an integer and returns a boolean. -/
def calledOnce : List Op := [.call ⟨1, 1⟩ [.int32], .exit ⟨⟨1, 1⟩, 4⟩ .bool]

/-- The same in another order, with the call repeated. -/
def calledTwice : List Op :=
  [.exit ⟨⟨1, 1⟩, 4⟩ .bool, .call ⟨1, 1⟩ [.int32], .call ⟨1, 1⟩ [.int32]]

theorem calledTwice_same : SameEvidence (history calledOnce) (history calledTwice) where
  types _ _ := Iff.rfl
  calls :=
    have hmem : [.int32] ∈ callsAt (history (calledTwice.take 2)) ⟨1, 1⟩ := List.mem_cons_self
    callsAt_mem hmem
  binaries _ _ := Iff.rfl
  conversions _ _ := Iff.rfl
  branches _ _ := Iff.rfl
  signatures _ _ := Iff.rfl
  arrays _ _ := Iff.rfl

theorem calledOnce_is_bounded_set :
    Fits 1 (history calledOnce) ∧ Fits 1 (history calledTwice) ∧
      SameAnswers (((Table.new 1 2).run calledOnce).snapshot 1)
        (((Table.new 1 2).run calledTwice).snapshot 1) ∧
      (((Table.new 1 2).run calledOnce).snapshot 1).boundedSpecialization ⟨1, 1⟩ =
        some ⟨⟨1, 1⟩, [.int32], .bool, 1⟩ := by
  have hfits : Fits 1 (history calledOnce) := ⟨by decide, by decide, by decide, by decide, trivial⟩
  have hfits' : Fits 1 (history calledTwice) :=
    ⟨by decide, by decide, by decide, by decide, by decide, by decide, trivial⟩
  exact ⟨hfits, hfits', (feedback_is_bounded_set 1 2 1 calledOnce hfits).2.1 calledTwice hfits'
    calledTwice_same, by decide⟩

/-- An array that is read and written, in two modes. -/
def readThenWritten : List Op :=
  [.array ⟨⟨1, 1⟩, 4⟩ ⟨.load, .packed, 0⟩, .array ⟨⟨1, 1⟩, 4⟩ ⟨.store, .int32, 0⟩]

/-- An array site is different: a megamorphic one keeps its modes and shows the
access that came first. -/
theorem feedback_array_order :
    Fits 1 (history readThenWritten) ∧ Fits 1 (history readThenWritten.reverse) ∧
      SameEvidence (history readThenWritten) (history readThenWritten.reverse) ∧
      (((Table.new 1 1).run readThenWritten).snapshot 1).arrays =
        [⟨⟨⟨1, 1⟩, 4⟩, ⟨.load, 6, 0, .megamorphic⟩⟩] ∧
      (((Table.new 1 1).run readThenWritten.reverse).snapshot 1).arrays =
        [⟨⟨⟨1, 1⟩, 4⟩, ⟨.store, 6, 0, .megamorphic⟩⟩] := by
  refine ⟨⟨by decide, by decide, by decide, by decide, trivial⟩,
    ⟨by decide, by decide, by decide, by decide, trivial⟩, ?_, by decide, by decide⟩
  refine ⟨fun _ _ => Iff.rfl, fun _ _ => Iff.rfl, fun _ _ => Iff.rfl, fun _ _ => Iff.rfl,
    fun _ _ => Iff.rfl, fun _ _ => Iff.rfl, fun site a => ?_⟩
  by_cases hsite : (⟨⟨1, 1⟩, 4⟩ : Site) = site
  · simp [readThenWritten, history, Op.event, arraysAt, seen, Event.forgets, arrayOf, hsite, or_comm]
  · simp [readThenWritten, history, Op.event, arraysAt, seen, Event.forgets, arrayOf, hsite]

end Feedback

end QuickJit
