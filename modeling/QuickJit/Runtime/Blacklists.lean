import QuickJit.Runtime.Standing

/-
  Tiers that are given up.

  A failing tier is blacklisted for its generation. Three places write that
  state and five others write a different one without looking at it. `SameBlacklists`
  says that an operation blacklists and rehabilitates nothing outside some
  tiers, and `step_sameBlacklists` names the one tier that each operation can
  reach. An operation that leaves blacklisted tiers alone `Spares` them; a run
  keeps its blacklists exactly when all its operations do
  (`blacklists_final_iff`).
-/

namespace QuickJit

open FunctionState

/-- The tier is given up, or the whole generation is. -/
def FunctionState.Blocked (f : FunctionState) (t : Tier) : Prop :=
  f.retired = true ∨ (f.tier t).state = .blacklisted

namespace Coordinator

/-! ## What the queries show -/

section Queries

variable {c : Coordinator} {k : FunctionKey} {t : Tier}

theorem tierState_of_retired (h : (c.record k).retired = true) : c.tierState k t = .retired := by
  unfold record at h
  unfold tierState
  cases hf : c.functions.get? k with
  | none =>
    rw [hf] at h
    cases h
  | some f =>
    rw [hf] at h
    exact if_pos h

theorem tierState_eq_blacklisted :
    c.tierState k t = .blacklisted ↔
      (c.record k).retired = false ∧ ((c.record k).tier t).state = .blacklisted := by
  unfold tierState record
  cases c.functions.get? k with
  | none => cases t <;> simp [new, tier]
  | some f =>
    simp only [Option.getD_some]
    cases hr : f.retired with
    | true => simp
    | false =>
      by_cases hs : (f.tier t).state = .cold
      · by_cases hi : f.published = some t ∨ (c.installedKeys k t).isSome = true
        · simp [hs, hi]
        · simp [hs, hi]
      · simp [hs]

theorem known_of_blacklisted (h : c.tierState k t = .blacklisted) :
    c.functions.contains k = true := by
  unfold OrdMap.contains
  unfold tierState at h
  cases hget : c.functions.get? k with
  | none =>
    rw [hget] at h
    cases h
  | some => rfl

/-- A blocked tier shows as blacklisted or retired. -/
theorem tierState_of_blocked (h : (c.record k).Blocked t) :
    c.tierState k t = .retired ∨ c.tierState k t = .blacklisted := by
  by_cases hr : (c.record k).retired = true
  · exact .inl (tierState_of_retired hr)
  · rcases h with h | h
    · exact absurd h hr
    · exact .inr (tierState_eq_blacklisted.mpr ⟨Bool.not_eq_true _ ▸ hr, h⟩)

/-- A tier with another state that is not retired shows neither. -/
theorem tierState_of_open (hr : (c.record k).retired = false) {state : CompileState}
    (hstate : ((c.record k).tier t).state = state)
    (hb : state ≠ .blacklisted) (hretired : state ≠ .retired) :
    c.tierState k t ≠ .blacklisted ∧ c.tierState k t ≠ .retired := by
  subst hstate
  refine ⟨fun h => hb (tierState_eq_blacklisted.mp h).2, ?_⟩
  revert hr hretired
  unfold tierState record
  cases c.functions.get? k with
  | none =>
    intro _ _ h
    cases h
  | some f =>
    intro hr hretired
    simp only [Option.getD_some] at hr hretired
    dsimp only
    rw [hr, if_neg Bool.false_ne_true]
    split
    · exact hretired
    · split
      · exact nofun
      · exact nofun

end Queries

/-! ## Operations that blacklist nothing -/

/-- Outside `touched`, the same tiers are blacklisted in `c'` as in `c`; what is
retired stays so, and only `demoted` functions join the profitability
demotions. -/
structure SameBlacklists (touched : FunctionKey → Tier → Prop) (demoted : FunctionKey → Prop)
    (c c' : Coordinator) : Prop where
  state : ∀ k t, ¬ touched k t →
    (((c'.record k).tier t).state = .blacklisted ↔ ((c.record k).tier t).state = .blacklisted)
  retired : ∀ k, (c.record k).retired = true → (c'.record k).retired = true
  demotions : ∀ k, ¬ demoted k →
    c'.profitabilityDemotions k = c.profitabilityDemotions k

section Pieces

variable {touched : FunctionKey → Tier → Prop} {demoted : FunctionKey → Prop}
  {c c' c'' : Coordinator} {key : FunctionKey} {tier : Tier} {f : FunctionState → FunctionState}

theorem SameBlacklists.of_functions (h : c'.functions = c.functions)
    (hd : c'.profitabilityDemotions = c.profitabilityDemotions) : SameBlacklists touched demoted c c' := by
  have hrecord : c'.record = c.record := by
    funext k
    unfold record
    rw [h]
  exact ⟨fun _ _ _ => by rw [hrecord], fun _ h => by rwa [hrecord], fun k _ => congrFun hd k⟩

theorem SameBlacklists.refl (c : Coordinator) : SameBlacklists touched demoted c c := .of_functions rfl rfl

theorem SameBlacklists.trans (h : SameBlacklists touched demoted c c') (h' : SameBlacklists touched demoted c' c'') :
    SameBlacklists touched demoted c c'' :=
  ⟨fun k t ht => (h'.state k t ht).trans (h.state k t ht), fun k hk => h'.retired k (h.retired k hk),
    fun k hk => (h'.demotions k hk).trans (h.demotions k hk)⟩

/-- A piece that writes one record. -/
theorem SameBlacklists.of_record (key : FunctionKey)
    (hrecord : ∀ k, c'.record k = c.record k ∨ k = key ∧ c'.record k = f (c.record k))
    (hstate : ∀ t, ¬ touched key t → (((f (c.record key)).tier t).state = .blacklisted ↔
      ((c.record key).tier t).state = .blacklisted))
    (hretired : ∀ x, x.retired = true → (f x).retired = true)
    (hd : ∀ k, ¬ demoted k → c'.profitabilityDemotions k = c.profitabilityDemotions k) :
    SameBlacklists touched demoted c c' := by
  refine ⟨fun k t ht => ?_, fun k hk => ?_, hd⟩
  · rcases hrecord k with heq | ⟨rfl, heq⟩
    · rw [heq]
    · rw [heq]
      exact hstate t ht
  · rcases hrecord k with heq | ⟨rfl, heq⟩
    · rwa [heq]
    · rw [heq]
      exact hretired _ hk

theorem record_of_modify (h : c'.functions = c.functions.modify key f) (k : FunctionKey) :
    c'.record k = c.record k ∨ k = key ∧ c'.record k = f (c.record k) := by
  have heq : c'.record k = record { c with functions := c.functions.modify key f } k := by
    unfold record
    rw [h]
  rw [heq, record_modify]
  split
  case isTrue hk => exact .inr ⟨hk.1.symm, rfl⟩
  case isFalse => exact .inl rfl

theorem record_of_updated {c₁ : Coordinator} (h : c'.functions = (c₁.update key f).functions)
    (hc : c₁.functions = c.functions) :
    c'.record key = f (c.record key) := by
  have heq : c'.record key = (c₁.update key f).record key := by
    unfold record
    rw [h]
  have hsame : c₁.record key = c.record key := by
    unfold record
    rw [hc]
  rw [heq, record_update, if_pos rfl, hsame]

theorem record_of_update {c₁ : Coordinator} (h : c'.functions = (c₁.update key f).functions)
    (hc : c₁.functions = c.functions) (k : FunctionKey) :
    c'.record k = c.record k ∨ k = key ∧ c'.record k = f (c.record k) := by
  by_cases hk : k = key
  · subst hk
    exact .inr ⟨rfl, record_of_updated h hc⟩
  · refine .inl ?_
    unfold record
    rw [h, update, OrdMap.get?_insert_ne _ _ (Ne.symm hk), hc]

theorem tier_setState_ne (tier : Tier) (state : CompileState) (f : FunctionState) (t : Tier)
    (ht : t ≠ tier) : (f.setState tier state).tier t = f.tier t := by
  rw [setState, tier_setTier, if_neg ht]

/-- A piece that writes the touched tier of one record. -/
theorem SameBlacklists.of_write (htouched : touched key tier)
    (hrecord : ∀ k, c'.record k = c.record k ∨ k = key ∧ c'.record k = f (c.record k))
    (htier : ∀ x t, t ≠ tier → (f x).tier t = x.tier t) (hretired : ∀ x, (f x).retired = x.retired)
    (hd : ∀ k, ¬ demoted k → c'.profitabilityDemotions k = c.profitabilityDemotions k) :
    SameBlacklists touched demoted c c' := by
  refine .of_record key hrecord (fun t ht => ?_) (fun x => (hretired x).trans) hd
  rw [htier _ t fun heq => ht (heq ▸ htouched)]

/-- A piece that writes the state of the touched tier. -/
theorem SameBlacklists.of_state {state : CompileState} (htouched : touched key tier)
    (h : c'.functions = c.functions.modify key fun f => f.setState tier state)
    (hd : c'.profitabilityDemotions = c.profitabilityDemotions) : SameBlacklists touched demoted c c' :=
  .of_write htouched (record_of_modify h) (tier_setState_ne tier state)
    (fun _ => retired_setState ..) fun k _ => congrFun hd k

theorem state_setState_self (f : FunctionState) (t : Tier) (state : CompileState) :
    ((f.setState t state).tier t).state = state := by
  rw [setState, tier_setTier, if_pos rfl]

/-- A piece that writes the state of one tier, which is not blacklisted before
or after. -/
theorem SameBlacklists.of_setState {state : CompileState} (hstate : state ≠ .blacklisted)
    (hbefore : ((c.record key).tier tier).state ≠ .blacklisted) (t : Tier) :
    (((c.record key).setState tier state).tier t).state = .blacklisted ↔
      ((c.record key).tier t).state = .blacklisted := by
  by_cases ht : t = tier
  · subst ht
    rw [state_setState_self]
    exact ⟨fun h => absurd h hstate, fun h => absurd h hbefore⟩
  · rw [tier_setState_ne _ _ _ _ ht]

theorem retireState_sameBlacklists (c : Coordinator) (key : FunctionKey) :
    SameBlacklists touched demoted c (c.retireState key) := by
  refine .of_record key (f := fun f => { f with retired := true, published := none })
    (fun k => ?_) (fun t _ => ?_) (fun _ _ => rfl) fun _ _ => rfl
  · by_cases hk : k = key
    · subst hk
      refine .inr ⟨rfl, ?_⟩
      rw [record, retireState_get?_self]
      rfl
    · refine .inl ?_
      unfold record
      rw [retireState_get?_ne hk]
  · cases t <;> rfl

theorem foldl_retireState_sameBlacklists :
    ∀ (keys : List FunctionKey) (c : Coordinator), SameBlacklists touched demoted c (keys.foldl retireState c)
  | [], c => .refl c
  | key :: keys, c =>
    (retireState_sameBlacklists c key).trans (foldl_retireState_sameBlacklists keys _)

theorem advanceGeneration_sameBlacklists (c : Coordinator) (key : FunctionKey) :
    SameBlacklists touched demoted c (c.advanceGeneration key) := by
  unfold advanceGeneration
  split
  · exact (foldl_retireState_sameBlacklists _ c).trans (.of_functions rfl rfl)
  · exact .refl c

theorem retire_sameBlacklists (c : Coordinator) (key : FunctionKey) :
    SameBlacklists touched demoted c (c.retire key) := by
  rw [retire_eq]
  refine (advanceGeneration_sameBlacklists c key).trans
    (.trans ?_ (foldl_retireState_sameBlacklists _ _))
  exact .of_functions rfl rfl

theorem shutDown_sameBlacklists (c : Coordinator) : SameBlacklists touched demoted c c.shutDown := by
  unfold shutDown
  split
  · exact .refl c
  · have hclear : SameBlacklists touched demoted c c.cleared := .of_functions rfl rfl
    exact hclear.trans ((foldl_retireState_sameBlacklists _ _).trans (.of_functions rfl rfl))

theorem advanceGeneration_record_self (c : Coordinator) (key : FunctionKey) :
    (c.advanceGeneration key).record key = c.record key := by
  unfold advanceGeneration
  split
  · have hself : key ∉ c.olderGenerations key := fun h =>
      absurd (mem_olderGenerations.mp h).2.2 (Nat.lt_irrefl _)
    have hget : ((c.olderGenerations key).foldl retireState c).functions.get? key =
        c.functions.get? key := foldl_retireState_get?_ne hself
    exact congrArg (Option.getD · new) hget
  · rfl

/-- A request is accepted for open tiers only. -/
theorem queueRequest_sameBlacklists {pins : List Address} (hs : c.cache.Sound pins []) (key : FunctionKey) (tier : Tier)
    (snapshot : VerifiedSnapshot) (feedback : FeedbackSnapshot) (sidePath : Option SidePathProfile)
    (targets : CallTargets) :
    SameBlacklists touched demoted c (c.queueRequest key tier snapshot feedback sidePath targets).1 := by
  have hadvance : SameBlacklists touched demoted c (c.advanceGeneration key) :=
    advanceGeneration_sameBlacklists c key
  have hsound : (c.advanceGeneration key).cache.Sound pins [] :=
    (show Evolves False c pins _ pins from advanceGeneration_evolves hs key).sound
  unfold queueRequest
  split
  case h_1 => exact .refl c
  case h_2 hcheck =>
  have hopen := (checkRequest_eq_ok hcheck).state
  rw [← advanceGeneration_record_self] at hopen
  dsimp only
  split
  case isTrue => exact hadvance
  case isFalse =>
  split
  case h_1 => exact hadvance
  case h_2 attemptId _ =>
  refine hadvance.trans ?_
  obtain ⟨epochs, cache, hplan, -⟩ :=
    planned_eq hsound attemptId key tier feedback.epoch sidePath targets
  rw [hplan]
  have hqueued : CompileState.queued tier ≠ .blacklisted := nofun
  exact .of_record key (f := fun f => f.setState tier (.queued tier)) (record_of_update rfl rfl)
    (fun t _ => SameBlacklists.of_setState hqueued hopen t) (fun _ => (retired_setState ..).trans)
    fun _ _ => rfl

theorem queueSidePath_sameBlacklists {pins : List Address} (hs : c.cache.Sound pins [])
    (key : FunctionKey) (snapshot : VerifiedSnapshot) (feedback : FeedbackSnapshot)
    (profile : SidePathProfile) :
    SameBlacklists touched demoted c (c.queueSidePath key snapshot feedback profile).1 := by
  unfold queueSidePath
  split
  · exact queueRequest_sameBlacklists hs ..
  · exact .refl c

theorem recordFailure_sameBlacklists (c : Coordinator) (key : FunctionKey) (tier : Tier)
    (htouched : touched key tier) :
    SameBlacklists touched demoted c (c.recordFailure key tier) := by
  refine .of_write htouched (record_of_modify rfl) (fun x t ht => ?_) (fun _ => retired_setTier ..)
    fun _ _ => rfl
  rw [tier_setTier, if_neg ht]

theorem foldl_recordEviction_sameBlacklists :
    ∀ (evicted : List ArtifactKey) (c : Coordinator),
      SameBlacklists touched demoted c (evicted.foldl recordEviction c)
  | [], c => .refl c
  | key :: evicted, c => by
    have hhead : SameBlacklists touched demoted c (c.recordEviction key) := by
      refine .of_record _ (record_of_modify rfl) (fun t _ => ?_) (fun x hx => ?_) fun _ _ => rfl
      · split <;> cases t <;> rfl
      · split <;> exact hx
    exact hhead.trans (foldl_recordEviction_sameBlacklists evicted _)

/-- A completion reaches the tier it is for. -/
theorem complete_sameBlacklists [TypeSizes] (completion : CompileCompletion)
    (htouched : touched completion.key completion.requestedTier) :
    SameBlacklists touched demoted c (c.complete completion).1 := by
  have hclear : SameBlacklists touched demoted c
      { c with inFlight := Function.update c.inFlight completion.key none } := .of_functions rfl rfl
  have hfailed : ∀ {c'}, SameBlacklists touched demoted c c' →
      SameBlacklists touched demoted c (c'.recordFailure completion.key completion.requestedTier) :=
    fun h => h.trans (recordFailure_sameBlacklists _ _ _ htouched)
  unfold complete
  split
  · exact .refl c
  split
  case isFalse => exact .refl c
  case isTrue =>
  split
  case h_2 => exact hfailed hclear
  case h_1 artifact _ =>
  split
  case isFalse => exact .refl c
  case isTrue =>
  unfold accept
  dsimp only
  split
  · exact hfailed hclear
  split
  · exact hfailed (.of_state htouched rfl rfl)
  split
  case h_1 => exact hfailed (.of_state htouched rfl rfl)
  case h_2 staged _ =>
  unfold publish
  split
  case isFalse => exact hfailed (.of_state htouched rfl rfl)
  case isTrue =>
  split
  case h_2 => exact hfailed (.of_state htouched rfl rfl)
  case h_1 cache evicted _ =>
    have hready : SameBlacklists touched demoted c (c.ready completion cache staged) :=
      .of_state htouched rfl rfl
    refine hready.trans ((foldl_recordEviction_sameBlacklists evicted _).trans ?_)
    exact .of_write htouched (record_of_modify rfl)
      (fun _ _ ht => (tier_setTier ..).trans (if_neg ht)) (fun _ => retired_setTier ..) fun _ _ => rfl

theorem beginNext_sameBlacklists : SameBlacklists touched demoted c c.beginNext.1 := by
  unfold beginNext
  split
  case h_1 => exact .of_functions rfl rfl
  case h_2 request queue heq =>
    have hwanted : c.isWanted request = true := by
      have hhead := List.head?_dropWhile_not (fun r => !c.isWanted r) c.queue
      rw [heq] at hhead
      simpa using hhead
    have hqueued := (isWanted_iff.mp hwanted).2
    have hcompiling : CompileState.compiling request.tier ≠ .blacklisted := nofun
    refine .of_record _ (record_of_modify rfl) (fun t _ => ?_) (fun _ => (retired_setState ..).trans)
      fun _ _ => rfl
    exact SameBlacklists.of_setState hcompiling (fun h => nomatch hqueued.symm.trans h) t

theorem rollback_sameBlacklists {request : CompileRequest}
    (htouched : touched request.key request.tier) :
    SameBlacklists touched demoted c (c.rollback request) := by
  unfold rollback
  split
  · exact .of_state htouched rfl rfl
  · exact .refl c

theorem rejectTier1_sameBlacklists (htouched : touched key tier) :
    SameBlacklists touched demoted c (c.rejectTier1 key tier) := by
  let c₁ := (c.advanceGeneration key).update key id
  have hmade : SameBlacklists touched demoted c c₁ := by
    refine (advanceGeneration_sameBlacklists _ key).trans ?_
    exact .of_record key (f := id) (record_of_update rfl rfl) (fun _ _ => Iff.rfl) (fun _ => id)
      fun _ _ => rfl
  refine (hmade.trans (recordFailure_sameBlacklists c₁ key tier htouched)).trans ?_
  exact .of_state htouched rfl rfl

/-- The one demotion that counts as one of profitability. -/
theorem demoteBaselineToInterpreter_sameBlacklists (htouched : touched key .baseline)
    (hdemoted : demoted key) :
    SameBlacklists touched demoted c (c.demoteBaselineToInterpreter key).1 := by
  unfold demoteBaselineToInterpreter
  dsimp only
  split
  · refine .of_write htouched (record_of_modify rfl) (fun x t ht => ?_) (fun x => ?_) fun k hk => ?_
    · rw [← tier_setState_ne .baseline .blacklisted x t ht]
      split <;> cases t <;> rfl
    · split <;> exact retired_setState ..
    · exact Function.update_of_ne (fun heq : k = key => hk (heq ▸ hdemoted)) ..
  · exact .of_functions rfl rfl

theorem prepareBaselineDirectRefresh_sameBlacklists (htouched : touched key .baseline) :
    SameBlacklists touched demoted c (c.prepareBaselineDirectRefresh key).1 := by
  unfold prepareBaselineDirectRefresh
  dsimp only
  split
  · exact .of_write htouched (record_of_modify rfl) (tier_setState_ne .baseline _)
      (fun _ => retired_setState ..) fun _ _ => rfl
  · exact .of_functions rfl rfl

theorem demoteUnprofitableOptimized_sameBlacklists (htouched : touched key .optimizing) :
    SameBlacklists touched demoted c (c.demoteUnprofitableOptimized key).1 := by
  unfold demoteUnprofitableOptimized
  dsimp only
  split
  · refine .of_write htouched (record_of_update rfl rfl) (fun x t ht => ?_) (fun x => ?_)
      fun _ _ => rfl
    · exact tier_setState_ne .optimizing _ x t ht
    · exact retired_setState ..
  · exact .of_functions rfl rfl

theorem prepareStablePathRecompile_sameBlacklists (htouched : touched key .optimizing) :
    SameBlacklists touched demoted c (c.prepareStablePathRecompile key).1 := by
  unfold prepareStablePathRecompile
  dsimp only
  split
  · exact .of_write htouched (record_of_modify rfl) (tier_setState_ne .optimizing _)
      (fun _ => retired_setState ..) fun _ _ => rfl
  · exact .of_functions rfl rfl

theorem recordOptimizedSideExitProfile_sameBlacklists {guard : Nat}
    {observed : Option ObservedType} (htouched : touched key .optimizing) :
    SameBlacklists touched demoted c (c.recordOptimizedSideExitProfile key guard observed).1 := by
  unfold recordOptimizedSideExitProfile
  dsimp only
  split
  · refine .of_write htouched (record_of_update rfl rfl) (fun x t ht => ?_) (fun x => ?_)
      fun _ _ => rfl
    · exact tier_setState_ne .optimizing _ x t ht
    · exact retired_setState ..
  · split <;> exact .of_functions rfl rfl

end Pieces

end Coordinator

/-- The operation is a profitability demotion of the function. -/
def CoordinatorOp.Demotes (op : CoordinatorOp) (k : FunctionKey) : Prop :=
  match op with
  | .demoteBaselineToInterpreter key => k = key
  | _ => False

namespace JitSystem

open Coordinator

/-- The tier that an operation may blacklist, or rehabilitate. -/
def Touches (s : JitSystem) (op : CoordinatorOp) (k : FunctionKey) (t : Tier) : Prop :=
  match op with
  | .rollback index => ∃ r, s.dispatched[index]? = some r ∧ k = r.key ∧ t = r.tier
  | .complete completion => k = completion.key ∧ t = completion.requestedTier
  | .rejectTier1 key tier => k = key ∧ t = tier
  | .demoteBaselineToInterpreter key | .prepareBaselineDirectRefresh key => k = key ∧ t = .baseline
  | .demoteUnprofitableOptimized key | .prepareStablePathRecompile key
  | .recordOptimizedSideExitProfile key _ _ => k = key ∧ t = .optimizing
  | _ => False

/-- Every operation leaves the blacklists of other tiers alone. -/
theorem step_sameBlacklists [TypeSizes] {s : JitSystem} (h : s.Ok) (op : CoordinatorOp) :
    SameBlacklists (s.Touches op) op.Demotes s.coordinator (s.step op).coordinator := by
  by_cases huses : usesCode op = true
  · obtain ⟨cache, versions, heq, -⟩ := step_usesCode h huses
    rw [heq]
    exact .of_functions rfl rfl
  cases op with
  | queue key tier snapshot feedback targets => exact queueRequest_sameBlacklists h.sound ..
  | queueSidePath key snapshot feedback profile => exact queueSidePath_sameBlacklists h.sound ..
  | prioritize key tier =>
    unfold step Coordinator.prioritize
    dsimp only
    split <;> exact .of_functions rfl rfl
  | beginNext => exact beginNext_sameBlacklists
  | rollback index =>
    unfold step
    dsimp only
    split
    case h_1 request hrequest => exact rollback_sameBlacklists ⟨request, hrequest, rfl, rfl⟩
    case h_2 => exact .refl _
  | complete completion => exact complete_sameBlacklists completion ⟨rfl, rfl⟩
  | rejectTier1 key tier => exact rejectTier1_sameBlacklists ⟨rfl, rfl⟩
  | retire key => exact retire_sameBlacklists _ key
  | demoteBaselineToInterpreter key =>
    exact demoteBaselineToInterpreter_sameBlacklists ⟨rfl, rfl⟩ rfl
  | prepareBaselineDirectRefresh key => exact prepareBaselineDirectRefresh_sameBlacklists ⟨rfl, rfl⟩
  | demoteUnprofitableOptimized key => exact demoteUnprofitableOptimized_sameBlacklists ⟨rfl, rfl⟩
  | prepareStablePathRecompile key => exact prepareStablePathRecompile_sameBlacklists ⟨rfl, rfl⟩
  | recordOptimizedSideExitProfile key guard observed =>
    exact recordOptimizedSideExitProfile_sameBlacklists ⟨rfl, rfl⟩
  | recordBenefit key tier savedNs =>
    unfold step Coordinator.recordBenefit
    dsimp only
    split <;> exact .of_functions rfl rfl
  | registerCallSpecialization | resolveCompiledCallTarget | pin | dropPin =>
    exact absurd rfl huses
  | pollReclamation budget => exact .of_functions rfl rfl
  | advanceClock now => exact .of_functions rfl rfl
  | shutDown => exact shutDown_sameBlacklists _

/-! ## Rehabilitation -/

section Rehabilitation

variable {s : JitSystem} {op : CoordinatorOp} {k : FunctionKey} {t : Tier}

/-- The operation does not write another state over a blacklisted one. -/
def Spares (s : JitSystem) : CoordinatorOp → Prop
  | .rollback index => ∀ r, s.dispatched[index]? = some r →
    (∃ flight, s.coordinator.inFlight r.key = some flight ∧ flight.attemptId = r.attemptId ∧
      flight.tier = r.tier) →
    s.coordinator.tierState r.key r.tier ≠ .blacklisted
  | .prepareBaselineDirectRefresh key =>
    (s.coordinator.record key).published = some .baseline →
    s.coordinator.installedKeys key .baseline ≠ none →
    s.coordinator.tierState key .baseline ≠ .blacklisted
  | .demoteUnprofitableOptimized key | .prepareStablePathRecompile key =>
    s.coordinator.installedKeys key .baseline ≠ none →
    s.coordinator.installedKeys key .optimizing ≠ none →
    s.coordinator.tierState key .optimizing ≠ .blacklisted
  | .recordOptimizedSideExitProfile key guard observed =>
    s.coordinator.exitDemotes key guard observed = true →
    s.coordinator.maxAttempts ≤ satSuccU8 (s.coordinator.record key).instabilityAttempts ∨
      s.coordinator.tierState key .optimizing ≠ .blacklisted
  | _ => True

theorem bothInstalled_iff {c : Coordinator} {key : FunctionKey} :
    c.bothInstalled key = true ↔
      c.installedKeys key .baseline ≠ none ∧ c.installedKeys key .optimizing ≠ none := by
  unfold bothInstalled
  rw [Bool.and_eq_true, Option.isSome_iff_ne_none, Option.isSome_iff_ne_none]

/-- Whether `rollback` finds the request in flight. -/
theorem rollback_matches {c : Coordinator} {r : CompileRequest} :
    ((c.inFlight r.key).any fun flight =>
      flight.attemptId = r.attemptId && flight.tier = r.tier) = true ↔
    ∃ flight, c.inFlight r.key = some flight ∧ flight.attemptId = r.attemptId ∧
      flight.tier = r.tier := by
  cases c.inFlight r.key <;> simp

/-- A blacklisted tier of a known function that an operation spares keeps its
state. -/
theorem step_spared [TypeSizes] (hop : s.Spares op) (htouched : s.Touches op k t)
    (hb : s.coordinator.tierState k t = .blacklisted) :
    (((s.step op).coordinator.record k).tier t).state = .blacklisted := by
  have hstate := (tierState_eq_blacklisted.mp hb).2
  -- what a record with a written state shows
  have hwritten : ∀ {c' : Coordinator} {f : FunctionState → FunctionState},
      (∀ k', c'.record k' = s.coordinator.record k' ∨
        k' = k ∧ c'.record k' = f (s.coordinator.record k')) →
      ((f (s.coordinator.record k)).tier t).state = .blacklisted →
      ((c'.record k).tier t).state = .blacklisted := by
    intro c' f hrecord hf
    rcases hrecord k with heq | ⟨-, heq⟩
    · rwa [heq]
    · rwa [heq]
  cases op with
  | rollback index =>
    obtain ⟨r, hr, rfl, rfl⟩ := htouched
    unfold step
    dsimp only
    rw [hr]
    dsimp only
    rw [Coordinator.rollback, if_neg fun hmatch => hop r hr (rollback_matches.mp hmatch) hb]
    exact hstate
  | complete completion =>
    obtain ⟨rfl, rfl⟩ := htouched
    have hsame : (s.coordinator.complete completion).1 = s.coordinator := by
      unfold Coordinator.complete
      split
      · rfl
      · rw [if_neg]
        intro hexpected
        cases (isExpected_iff.mp hexpected).2.2.1.symm.trans hstate
    show (((s.coordinator.complete completion).1.record _).tier _).state = _
    rwa [hsame]
  | rejectTier1 key tier =>
    obtain ⟨rfl, rfl⟩ := htouched
    let c₁ := ((s.coordinator.advanceGeneration k).update k id).recordFailure k t
    have hknown : c₁.functions.contains k = true := by
      show ((OrdMap.insert _ k _).modify k _).contains k = true
      rw [contains_modify, contains_insert]
      simp
    show ((record { c₁ with functions := c₁.functions.modify k _ } k).tier t).state = _
    rw [record_modify, if_pos ⟨rfl, hknown⟩]
    exact state_setState_self ..
  | demoteBaselineToInterpreter key =>
    obtain ⟨rfl, rfl⟩ := htouched
    unfold step Coordinator.demoteBaselineToInterpreter
    dsimp only
    split
    · refine hwritten (record_of_modify rfl) ?_
      split
      · rfl
      · exact state_setState_self ..
    · exact hstate
  | prepareBaselineDirectRefresh key =>
    obtain ⟨rfl, rfl⟩ := htouched
    unfold step Coordinator.prepareBaselineDirectRefresh
    dsimp only
    rw [if_neg]
    · exact hstate
    · rintro ⟨hpublished, hinstalled⟩
      exact hop (any_published_iff.mp hpublished).2 (Option.isSome_iff_ne_none.mp hinstalled) hb
  | demoteUnprofitableOptimized key =>
    obtain ⟨rfl, rfl⟩ := htouched
    unfold step Coordinator.demoteUnprofitableOptimized
    dsimp only
    split
    case isTrue hboth =>
      obtain ⟨hbaseline, hoptimizing⟩ := bothInstalled_iff.mp hboth
      exact absurd hb (hop hbaseline hoptimizing)
    case isFalse => exact hstate
  | prepareStablePathRecompile key =>
    obtain ⟨rfl, rfl⟩ := htouched
    unfold step Coordinator.prepareStablePathRecompile
    dsimp only
    split
    case isTrue hboth =>
      obtain ⟨hbaseline, hoptimizing⟩ := bothInstalled_iff.mp hboth
      exact absurd hb (hop hbaseline hoptimizing)
    case isFalse => exact hstate
  | recordOptimizedSideExitProfile key guard observed =>
    obtain ⟨rfl, rfl⟩ := htouched
    unfold step Coordinator.recordOptimizedSideExitProfile
    dsimp only
    split
    case isTrue hdemotes =>
      have hmax := (hop hdemotes).resolve_right (not_not.mpr hb)
      refine hwritten (record_of_update rfl rfl) ?_
      show (if s.coordinator.maxAttempts ≤ satSuccU8 (s.coordinator.record k).instabilityAttempts then
        CompileState.blacklisted else _) = _
      exact if_pos hmax
    case isFalse => split <;> exact hstate
  | _ => exact htouched.elim

/-- Operations that spare blacklisted tiers keep what is blocked. -/
theorem step_blocked [TypeSizes] (h : s.Ok) (hop : s.Spares op)
    (hb : (s.coordinator.record k).Blocked t) : ((s.step op).coordinator.record k).Blocked t := by
  have hsame := step_sameBlacklists h op
  rcases hb with hretired | hstate
  · exact .inl (hsame.retired k hretired)
  · by_cases hretired : (s.coordinator.record k).retired = true
    · exact .inl (hsame.retired k hretired)
    · refine .inr ?_
      by_cases htouched : s.Touches op k t
      · have hretired := Bool.not_eq_true _ ▸ hretired
        exact step_spared hop htouched (tierState_eq_blacklisted.mpr ⟨hretired, hstate⟩)
      · exact (hsame.state k t htouched).mpr hstate

/-- Any other operation takes a tier off its blacklist. -/
theorem step_rehabilitates [TypeSizes] (hop : ¬ s.Spares op) :
    ∃ k t, s.coordinator.tierState k t = .blacklisted ∧
      (s.step op).coordinator.tierState k t ≠ .blacklisted ∧
      (s.step op).coordinator.tierState k t ≠ .retired := by
  -- a known function whose tier gets another state
  have hopened : ∀ {c' : Coordinator} {key : FunctionKey} {tier : Tier} {state : CompileState}
      {f : FunctionState → FunctionState}, s.coordinator.tierState key tier = .blacklisted →
      c'.record key = f (s.coordinator.record key) →
      (∀ x, (f x).retired = x.retired) → ((f (s.coordinator.record key)).tier tier).state = state →
      state ≠ .blacklisted → state ≠ .retired →
      c'.tierState key tier ≠ .blacklisted ∧ c'.tierState key tier ≠ .retired := by
    intro c' key tier state f hb hrecord hretired hstate hne hne'
    refine tierState_of_open ?_ (by rw [hrecord]; exact hstate) hne hne'
    rw [hrecord, hretired]
    exact (tierState_eq_blacklisted.mp hb).1
  have hmodified : ∀ {c' : Coordinator} {key : FunctionKey} {tier : Tier}
      {f : FunctionState → FunctionState}, s.coordinator.tierState key tier = .blacklisted →
      c'.functions = s.coordinator.functions.modify key f →
      c'.record key = f (s.coordinator.record key) := by
    intro c' key tier f hb hfunctions
    have hrecord : c'.record key =
        record { s.coordinator with functions := s.coordinator.functions.modify key f } key := by
      unfold record
      rw [hfunctions]
    rw [hrecord, record_modify, if_pos ⟨rfl, known_of_blacklisted hb⟩]
  cases op with
  | rollback index =>
    simp only [Spares, not_forall, not_not] at hop
    obtain ⟨r, hr, hmatch, hb⟩ := hop
    refine ⟨r.key, r.tier, hb, ?_⟩
    unfold step
    dsimp only
    rw [hr]
    dsimp only
    rw [Coordinator.rollback, if_pos (rollback_matches.mpr hmatch)]
    exact hopened hb (hmodified hb rfl) (fun _ => retired_setState ..) (state_setState_self ..)
      nofun nofun
  | prepareBaselineDirectRefresh key =>
    simp only [Spares, not_forall, not_not] at hop
    obtain ⟨hpublished, hinstalled, hb⟩ := hop
    refine ⟨key, .baseline, hb, ?_⟩
    unfold step Coordinator.prepareBaselineDirectRefresh
    dsimp only
    split
    case isTrue =>
      exact hopened hb (hmodified hb rfl) (fun _ => retired_setState ..) rfl nofun nofun
    case isFalse hnot =>
      exact absurd ⟨any_published_iff.mpr ⟨known_of_blacklisted hb, hpublished⟩,
        Option.isSome_iff_ne_none.mpr hinstalled⟩ hnot
  | demoteUnprofitableOptimized key =>
    simp only [Spares, not_forall, not_not] at hop
    obtain ⟨hbaseline, hoptimizing, hb⟩ := hop
    refine ⟨key, .optimizing, hb, ?_⟩
    unfold step Coordinator.demoteUnprofitableOptimized
    dsimp only
    split
    case isTrue =>
      exact hopened hb (record_of_updated rfl rfl) (fun _ => retired_setState ..) rfl
        nofun nofun
    case isFalse hnot => exact absurd (bothInstalled_iff.mpr ⟨hbaseline, hoptimizing⟩) hnot
  | prepareStablePathRecompile key =>
    simp only [Spares, not_forall, not_not] at hop
    obtain ⟨hbaseline, hoptimizing, hb⟩ := hop
    refine ⟨key, .optimizing, hb, ?_⟩
    unfold step Coordinator.prepareStablePathRecompile
    dsimp only
    split
    case isTrue =>
      exact hopened hb (hmodified hb rfl) (fun _ => retired_setState ..) rfl nofun
        nofun
    case isFalse hnot => exact absurd (bothInstalled_iff.mpr ⟨hbaseline, hoptimizing⟩) hnot
  | recordOptimizedSideExitProfile key guard observed =>
    simp only [Spares, not_forall, not_or, not_not] at hop
    obtain ⟨hdemotes, hmax, hb⟩ := hop
    refine ⟨key, .optimizing, hb, ?_⟩
    unfold step Coordinator.recordOptimizedSideExitProfile
    dsimp only
    rw [if_pos hdemotes]
    refine hopened hb (record_of_updated rfl rfl) (fun _ => retired_setState ..) (if_neg hmax) ?_ ?_
    · exact nofun
    · exact nofun
  | _ => exact absurd trivial hop

end Rehabilitation

end JitSystem

/-! ## Runs -/

/-- No request for the tier is accepted. -/
structure Coordinator.Refuses (c : Coordinator) (k : FunctionKey) (t : Tier) : Prop where
  queue : ∀ snapshot feedback targets,
    (c.queueWithFeedback k t snapshot feedback targets).2 ≠ .ok ()
  queueSidePath : t = .optimizing → ∀ snapshot feedback profile,
    (c.queueSidePath k snapshot feedback profile).2 ≠ .ok ()

theorem Coordinator.refuses_of_blacklisted {c : Coordinator} {k : FunctionKey} {t : Tier}
    (h : c.tierState k t = .blacklisted) : c.Refuses k t := by
  have hrequest : ∀ snapshot feedback sidePath targets,
      (c.queueRequest k t snapshot feedback sidePath targets).2 ≠ .ok () := by
    intro snapshot feedback sidePath targets
    unfold queueRequest
    split
    case h_1 => exact nofun
    case h_2 hcheck =>
      exact absurd (tierState_eq_blacklisted.mp h).2 (checkRequest_eq_ok hcheck).state
  refine ⟨fun snapshot feedback targets => hrequest snapshot feedback none targets,
    fun ht snapshot feedback profile => ?_⟩
  subst ht
  unfold queueSidePath
  split
  · exact hrequest snapshot feedback (some profile) _
  · exact nofun

namespace JitSystem

open Coordinator

/-- Whatever is blacklisted at some point of a run is so at every later point,
and takes no requests there, unless the generation was retired. -/
def BlacklistsFinal [TypeSizes] (s : JitSystem) (ops : List CoordinatorOp) : Prop :=
  ∀ before between after, ops = before ++ between ++ after → ∀ k t,
    (runs step s before).coordinator.tierState k t = .blacklisted →
    (runs step s (before ++ between)).coordinator.tierState k t = .retired ∨
      (runs step s (before ++ between)).coordinator.tierState k t = .blacklisted ∧
        (runs step s (before ++ between)).coordinator.Refuses k t

section

variable {s : JitSystem} {ops : List CoordinatorOp}

/-- In a run of operations that spare blacklisted tiers nothing gets unblocked. -/
theorem runs_blocked [TypeSizes] (h : s.Ok) (hops : Meets step Spares s ops) {k : FunctionKey}
    {t : Tier} (hb : (s.coordinator.record k).Blocked t) :
    ((runs step s ops).coordinator.record k).Blocked t := by
  refine (runs_inv_of_meets (P := fun s => s.Ok ∧ (s.coordinator.record k).Blocked t) ?_ ⟨h, hb⟩
    hops).2
  intro s op hop ⟨hok, hb⟩
  exact ⟨step_ok s op hok, step_blocked hok hop hb⟩

theorem blacklistsFinal_of_meets [TypeSizes] (h : s.Ok) (hops : Meets step Spares s ops) :
    s.BlacklistsFinal ops := by
  intro before between after heq k t hb
  subst heq
  rw [meets_append, meets_append] at hops
  rw [runs_append]
  have hblocked := runs_blocked (runs_inv step_ok h before) hops.1.2 (k := k) (t := t)
    (.inr (tierState_eq_blacklisted.mp hb).2)
  refine (tierState_of_blocked hblocked).imp_right fun hlater => ⟨hlater, ?_⟩
  exact refuses_of_blacklisted hlater

theorem meets_of_blacklistsFinal [TypeSizes] :
    ∀ {s : JitSystem}, s.BlacklistsFinal ops → Meets step Spares s ops := by
  induction ops with
  | nil => exact fun _ => trivial
  | cons op ops ih =>
    intro s hfinal
    refine ⟨?_, ih ?_⟩
    · by_contra hop
      obtain ⟨k, t, hb, hne, hretired⟩ := step_rehabilitates hop
      rcases hfinal [] [op] ops rfl k t hb with hlater | ⟨hlater, -⟩
      · exact hretired hlater
      · exact hne hlater
    · intro before between after heq k t hb
      exact hfinal (op :: before) between after (congrArg (op :: ·) heq) k t hb

end

/-- A run keeps its blacklists exactly when each of its operations leaves the
blacklisted tiers alone. -/
theorem blacklists_final_iff [TypeSizes] (maxQueueLen maxAttempts : Nat) (limits : CacheLimits)
    (environment : ArtifactEnvironment) (ops : List CoordinatorOp) :
    (start maxQueueLen maxAttempts limits environment).BlacklistsFinal ops ↔
      Meets step Spares (start maxQueueLen maxAttempts limits environment) ops :=
  ⟨meets_of_blacklistsFinal, blacklistsFinal_of_meets start_ok⟩

end JitSystem

/-! ## A failed side path -/

open scoped Sample

/-- Both tiers of a function are compiled; a side path of the optimizing tier
fails, which blacklists that tier, and the installed code is then demoted as
unprofitable. -/
def failedSidePath : List CoordinatorOp :=
  let profile : SidePathProfile := ⟨⟨1, 1⟩, 0, 0, .int32, 1⟩
  sampleCompile 1 (sampleArtifact (sampleKey ⟨1, 1⟩ .baseline 0) 10 []) ++
  sampleCompile 2 (sampleArtifact (sampleKey ⟨1, 1⟩ .optimizing 0) 10 []) ++
  [.queueSidePath ⟨1, 1⟩ emptyFunction (sampleFeedback 1) profile,
    .beginNext,
    .complete ⟨⟨1, 1⟩, .optimizing, sampleKey ⟨1, 1⟩ .optimizing profile.fingerprint, 3,
      .error .unsupportedOpcode⟩,
    .demoteUnprofitableOptimized ⟨1, 1⟩]

/-- The demotion puts the blacklisted tier into a backoff, and when that is over
the tier is queued again. -/
theorem demotion_lifts_blacklist :
    let s := JitSystem.start 8 1 (.shared 1000) sampleEnvironment
    ¬ s.BlacklistsFinal (failedSidePath ++ [.advanceClock 10]) ∧
      ((runs JitSystem.step s (failedSidePath ++ [.advanceClock 10])).coordinator.queueWithFeedback
        ⟨1, 1⟩ .optimizing emptyFunction (sampleFeedback 1) ⟨[], none⟩).2 = .ok () := by
  intro s
  have hb : (runs JitSystem.step s (failedSidePath.take 9)).coordinator.tierState ⟨1, 1⟩ .optimizing =
      .blacklisted := by decide +kernel
  have hlater : (runs JitSystem.step s
      (failedSidePath.take 9 ++ failedSidePath.drop 9)).coordinator.tierState ⟨1, 1⟩ .optimizing =
      .backoff 1 2 := by decide +kernel
  refine ⟨fun hfinal => ?_, by decide +kernel⟩
  have hcase := hfinal (failedSidePath.take 9) (failedSidePath.drop 9) [.advanceClock 10]
    (by rw [List.take_append_drop]) _ _ hb
  rw [hlater] at hcase
  rcases hcase with hcase | ⟨hcase, -⟩
  · cases hcase
  · cases hcase

end QuickJit
