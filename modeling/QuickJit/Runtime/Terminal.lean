import QuickJit.Runtime.Blacklists
import QuickJit.Runtime.Retirement

/-
  Functions that are given up altogether.

  `is_terminally_blacklisted` reads the states of the two tiers. Code that is
  installed, or a request that is still under way, is not looked at, so a
  function can count as given up while its baseline runs
  (`terminal_with_baseline`). As long as operations give a function up only when
  nothing of it is left and do not come back to it (`LetsRest`), a function that
  counts as given up has no native code and never gets any
  (`terminal_no_code`).
-/

namespace QuickJit

open Function

/-- The attempt failed; a completion that nobody waits for is no attempt. -/
def CompletionDisposition.fails : CompletionDisposition → Bool
  | .installed _ | .missingInFlight | .staleEnvelope | .artifactKeyMismatch => false
  | _ => true

namespace Coordinator

variable {c c' : Coordinator} {key k : FunctionKey} {t : Tier}

theorem isTerminallyBlacklisted_iff :
    c.isTerminallyBlacklisted k = true ↔ (c.record k).retired = false ∧
      (((c.record k).tier .optimizing).state = .blacklisted ∨
        ((c.record k).tier .baseline).state = .blacklisted ∧ c.profitabilityDemotions k = false) := by
  unfold isTerminallyBlacklisted record
  cases c.functions.get? k with
  | none => simp [FunctionState.new, FunctionState.tier]
  | some f => simp [FunctionState.tier]

/-- Nothing of the function is installed, queued or in flight. -/
structure Vacant (c : Coordinator) (k : FunctionKey) : Prop where
  installed : ∀ t, c.installedKeys k t = none
  queue : ∀ r ∈ c.queue, r.key ≠ k
  inFlight : c.inFlight k = none

theorem Vacant.pin (h : c.Vacant k) (t : Tier) : (c.pin k t).2 = none := by
  unfold Coordinator.pin
  rw [h.installed t]

theorem Narrows.inFlight_none (h : c.Narrows c') (hnone : c.inFlight k = none) :
    c'.inFlight k = none := by
  cases hf : c'.inFlight k with
  | none => rfl
  | some flight => exact nomatch hnone.symm.trans (h.inFlight k flight hf)

/-- A completion that leaves something in flight changed nothing. -/
theorem complete_lands [TypeSizes] (c : Coordinator) (completion : CompileCompletion) :
    (c.complete completion).1 = c ∨ (c.complete completion).1.inFlight completion.key = none := by
  have hcleared : Function.update c.inFlight completion.key none completion.key = none :=
    update_self ..
  unfold complete
  split
  · exact .inl rfl
  split
  case isFalse => exact .inl rfl
  case isTrue =>
  split
  case h_2 => exact .inr hcleared
  case h_1 artifact _ =>
  split
  case isFalse => exact .inl rfl
  case isTrue =>
  refine .inr ?_
  unfold accept
  dsimp only
  split
  · exact hcleared
  split
  · exact hcleared
  split
  · exact hcleared
  unfold publish
  split
  case isFalse => exact hcleared
  case isTrue =>
  split
  case h_2 => exact hcleared
  case h_1 =>
    show Coordinator.inFlight (List.foldl _ _ _) _ = _
    rw [foldl_recordEviction_fixed Coordinator.inFlight (fun _ _ => rfl)]
    exact hcleared

/-- A failure that blacklists was the last attempt. -/
theorem recordFailure_blacklisted {tier : Tier}
    (hbefore : ((c.record key).tier tier).state ≠ .blacklisted)
    (h : (((c.recordFailure key tier).record key).tier tier).state = .blacklisted) :
    c.maxAttempts ≤ satSuccU8 ((c.record key).tier tier).attempts := by
  have hfunctions : (c.recordFailure key tier).functions = c.functions.modify key fun f =>
      f.setTier tier (TierRecord.failed c.maxAttempts c.clock (f.tier tier)) := rfl
  rcases record_of_modify hfunctions key with heq | ⟨-, heq⟩
  · rw [heq] at h
    exact absurd h hbefore
  · rw [heq, tier_setTier, if_pos rfl] at h
    unfold TierRecord.failed at h
    dsimp only at h
    split at h
    case isTrue hmax => exact hmax
    case isFalse => cases h

theorem ready_attempts (completion : CompileCompletion) {c₁ : Coordinator}
    (h : c₁.functions = c.functions.modify completion.key fun f =>
      f.setState completion.requestedTier (.ready completion.requestedTier)) :
    ((c₁.record completion.key).tier completion.requestedTier).attempts =
      ((c.record completion.key).tier completion.requestedTier).attempts := by
  rcases record_of_modify h completion.key with heq | ⟨-, heq⟩
  · rw [heq]
  · rw [heq, FunctionState.setState, tier_setTier, if_pos rfl]

/-- A completion that blacklists its tier was the last attempt, and it failed. -/
theorem complete_blacklists [TypeSizes] {completion : CompileCompletion}
    (hbefore : ((c.record completion.key).tier completion.requestedTier).state ≠ .blacklisted)
    (h : (((c.complete completion).1.record completion.key).tier completion.requestedTier).state =
      .blacklisted) :
    c.maxAttempts ≤
        satSuccU8 ((c.record completion.key).tier completion.requestedTier).attempts ∧
      (c.complete completion).2.fails = true := by
  -- a failure after the flight has landed
  have hfailed : ∀ {c₁ : Coordinator},
      (((c₁.recordFailure completion.key completion.requestedTier).record completion.key).tier
        completion.requestedTier).state = .blacklisted →
      c₁.maxAttempts = c.maxAttempts →
      (c₁.functions = c.functions ∨ c₁.functions = c.functions.modify completion.key fun f =>
        f.setState completion.requestedTier (.ready completion.requestedTier)) →
      c.maxAttempts ≤
        satSuccU8 ((c.record completion.key).tier completion.requestedTier).attempts := by
    intro c₁ hstate hmax hfunctions
    rw [← hmax]
    rcases hfunctions with hsame | hready
    · have hrecord : c₁.record completion.key = c.record completion.key := by
        unfold record
        rw [hsame]
      rw [← hrecord] at hbefore ⊢
      exact recordFailure_blacklisted hbefore hstate
    · rw [← ready_attempts completion hready]
      refine recordFailure_blacklisted ?_ hstate
      rcases record_of_modify hready completion.key with heq | ⟨-, heq⟩
      · rwa [heq]
      · rw [heq, state_setState_self]
        exact nofun
  revert h
  unfold complete
  split
  case h_1 => exact fun h => absurd h hbefore
  case h_2 flight _ =>
  split
  case isFalse => exact fun h => absurd h hbefore
  case isTrue =>
  split
  case h_2 => exact fun h => ⟨hfailed h rfl (.inl rfl), rfl⟩
  case h_1 artifact _ =>
  split
  case isFalse => exact fun h => absurd h hbefore
  case isTrue =>
  unfold accept
  dsimp only
  split
  · exact fun h => ⟨hfailed h rfl (.inl rfl), rfl⟩
  split
  · exact fun h => ⟨hfailed h rfl (.inr rfl), rfl⟩
  split
  case h_1 => exact fun h => ⟨hfailed h rfl (.inr rfl), rfl⟩
  case h_2 staged _ =>
  unfold publish
  split
  case isFalse => exact fun h => ⟨hfailed h rfl (.inr rfl), rfl⟩
  case isTrue =>
  split
  case h_2 => exact fun h => ⟨hfailed h rfl (.inr rfl), rfl⟩
  case h_1 cache evicted _ =>
    intro h
    -- the installed tier is cold
    let c₂ := evicted.foldl recordEviction (c.ready completion cache staged)
    have hsame : SameBlacklists (fun _ _ => False) (fun _ => False)
        (c.ready completion cache staged) c₂ := foldl_recordEviction_sameBlacklists evicted _
    have hready : (c.ready completion cache staged).functions =
        c.functions.modify completion.key fun f =>
          f.setState completion.requestedTier (.ready completion.requestedTier) := rfl
    have hinstall : (c₂.install completion.key completion.requestedTier flight
        artifact.key).functions = c₂.functions.modify completion.key fun f =>
          { f.setTier completion.requestedTier ⟨.cold, 0⟩ with
            published := some completion.requestedTier } := rfl
    refine absurd h ?_
    rcases record_of_modify hinstall completion.key with heq | ⟨-, heq⟩
    · refine fun h => absurd ((hsame.state _ _ id).mp (heq ▸ h)) ?_
      rcases record_of_modify hready completion.key with heq' | ⟨-, heq'⟩
      · rwa [heq']
      · rw [heq', state_setState_self]
        exact nofun
    · intro h
      have hcold := congrArg (fun f => (FunctionState.tier f completion.requestedTier).state) heq
      refine nomatch h.symm.trans (hcold.trans (?_ : _ = CompileState.cold))
      show ((FunctionState.setTier _ _ _).tier _).state = _
      rw [tier_setTier, if_pos rfl]

end Coordinator

/-- The operation asks for a tier of the function. -/
def CoordinatorOp.AsksFor (op : CoordinatorOp) (k : FunctionKey) : Prop :=
  match op with
  | .queue key .. | .queueSidePath key .. => key = k
  | _ => False

namespace JitSystem

open Coordinator

variable {s : JitSystem} {k : FunctionKey} {t : Tier} {op : CoordinatorOp}

/-! ## Functions nothing is left of -/

/-- A request for another function. -/
theorem queueRequest_vacant (h : s.Ok) {key : FunctionKey} {tier : Tier}
    {snapshot : VerifiedSnapshot} {feedback : FeedbackSnapshot} {sidePath : Option SidePathProfile}
    {targets : CallTargets} (hside : tier = .baseline → sidePath = none) (hkey : key ≠ k)
    (hv : s.coordinator.Vacant k) :
    (∀ r ∈ (s.coordinator.queueRequest key tier snapshot feedback sidePath targets).1.queue,
      r.key ≠ k) ∧
    (s.coordinator.queueRequest key tier snapshot feedback sidePath targets).1.inFlight k = none := by
  rcases queueRequest_spec False h.sound key tier snapshot feedback sidePath targets hside with
    ⟨e, herror, -⟩ | ⟨-, -, r, rfl, rfl, haccepted⟩
  · have hnarrows := queueRequest_narrows s.coordinator key tier snapshot feedback sidePath targets
      (by rw [herror]; exact nofun)
    exact ⟨fun r hr => hv.queue r (hnarrows.queue r hr), hnarrows.inFlight_none hv.inFlight⟩
  · have hadvance := advanceGeneration_narrows s.coordinator r.key
    constructor
    · intro r' hr'
      rw [haccepted.queue_eq, List.mem_append, List.mem_singleton] at hr'
      rcases hr' with hr' | rfl
      · exact hv.queue r' (hadvance.queue r' hr')
      · exact hkey
    · rw [haccepted.inFlight_eq]
      exact hadvance.inFlight_none hv.inFlight

/-- As long as nobody asks for it, a function nothing is left of stays so. -/
theorem step_vacant [TypeSizes] (h : s.Ok) (hop : ¬ op.AsksFor k) (hv : s.coordinator.Vacant k) :
    (s.step op).coordinator.Vacant k := by
  have hinstalled : ∀ t, (s.step op).coordinator.installedKeys k t = none := fun t => by
    by_contra hsome
    obtain ⟨key, hkey⟩ := Option.ne_none_iff_exists'.mp hsome
    rcases step_installed h hkey with hbefore | ⟨completion, evicted, rfl, rfl, -, hinstalled⟩
    · cases (hv.installed t).symm.trans hbefore
    · obtain ⟨flight, artifact, cache, staged, hinstalls⟩ := complete_eq_installed hinstalled
      cases hv.inFlight.symm.trans hinstalls.flight_eq
  by_cases hmoves : op.movesRequests = false
  · have hnarrows := step_narrows h hmoves
    exact ⟨hinstalled, fun r hr => hv.queue r (hnarrows.queue r hr),
      hnarrows.inFlight_none hv.inFlight⟩
  suffices hrest : (∀ r ∈ (s.step op).coordinator.queue, r.key ≠ k) ∧
      (s.step op).coordinator.inFlight k = none from ⟨hinstalled, hrest.1, hrest.2⟩
  cases op with
  | queue key tier snapshot feedback targets =>
    exact queueRequest_vacant h (fun _ => rfl) hop hv
  | queueSidePath key snapshot feedback profile =>
    unfold step Coordinator.queueSidePath
    dsimp only
    split
    · exact queueRequest_vacant h nofun hop hv
    · exact ⟨hv.queue, hv.inFlight⟩
  | beginNext =>
    unfold step Coordinator.beginNext
    dsimp only
    split
    case h_1 => exact ⟨nofun, hv.inFlight⟩
    case h_2 request queue heq =>
      have hqueue : ∀ r ∈ request :: queue, r ∈ s.coordinator.queue := fun r hr =>
        (List.dropWhile_suffix _).subset (heq ▸ hr)
      refine ⟨fun r hr => hv.queue r (hqueue r (List.mem_cons_of_mem _ hr)), ?_⟩
      have hne := hv.queue request (hqueue request List.mem_cons_self)
      exact (update_of_ne (Ne.symm hne) ..).trans hv.inFlight
  | rollback index =>
    unfold step
    dsimp only
    split
    case h_1 request _ =>
      unfold Coordinator.rollback
      split
      case isTrue hmatch =>
        obtain ⟨flight, hflight, -⟩ := rollback_matches.mp hmatch
        have hne : request.key ≠ k := fun heq => by
          rw [heq, hv.inFlight] at hflight
          cases hflight
        refine ⟨fun r hr => ?_, (update_of_ne (Ne.symm hne) ..).trans hv.inFlight⟩
        rcases List.mem_cons.mp hr with rfl | hr
        · exact hne
        · exact hv.queue r hr
      case isFalse => exact ⟨hv.queue, hv.inFlight⟩
    case h_2 => exact ⟨hv.queue, hv.inFlight⟩
  | _ => exact absurd rfl hmoves

/-! ## Giving a function up -/

/-- The operation gives a function up only when nothing of it is left, and asks
nothing of a function that is given up. -/
def LetsRest [TypeSizes] (s : JitSystem) : CoordinatorOp → Prop
  | .queue key .. | .queueSidePath key .. => s.coordinator.isTerminallyBlacklisted key = false
  | .complete completion =>
    (s.coordinator.complete completion).2.fails = true → s.coordinator.maxAttempts ≤
      satSuccU8 ((s.coordinator.record completion.key).tier completion.requestedTier).attempts →
    (∀ t, s.coordinator.installedKeys completion.key t = none) ∧
      ∀ r ∈ s.coordinator.queue, r.key ≠ completion.key
  | .rejectTier1 key _ => s.coordinator.Vacant key
  | .recordOptimizedSideExitProfile key guard observed =>
    s.coordinator.exitDemotes key guard observed = true →
    if s.coordinator.maxAttempts ≤ satSuccU8 (s.coordinator.record key).instabilityAttempts then
      s.coordinator.installedKeys key .baseline = none ∧
        (∀ r ∈ s.coordinator.queue, r.key ≠ key) ∧ s.coordinator.inFlight key = none
    else s.coordinator.isTerminallyBlacklisted key = false
  | _ => True

/-- Operations that let given up functions rest spare their blacklisted tiers. -/
theorem spares_of_letsRest [TypeSizes] (hop : s.LetsRest op) (hv : s.coordinator.Vacant k)
    (hterminal : s.coordinator.isTerminallyBlacklisted k = true) (htouched : s.Touches op k t) :
    s.Spares op := by
  cases op with
  | rollback index =>
    obtain ⟨r, hr, rfl, rfl⟩ := htouched
    rintro r' hr' ⟨flight, hflight, -⟩
    cases hr.symm.trans hr'
    cases hv.inFlight.symm.trans hflight
  | prepareBaselineDirectRefresh key =>
    obtain ⟨rfl, rfl⟩ := htouched
    exact fun _ hinstalled => absurd (hv.installed .baseline) hinstalled
  | demoteUnprofitableOptimized key =>
    obtain ⟨rfl, rfl⟩ := htouched
    exact fun hinstalled => absurd (hv.installed .baseline) hinstalled
  | prepareStablePathRecompile key =>
    obtain ⟨rfl, rfl⟩ := htouched
    exact fun hinstalled => absurd (hv.installed .baseline) hinstalled
  | recordOptimizedSideExitProfile key guard observed =>
    obtain ⟨rfl, rfl⟩ := htouched
    intro hdemotes
    have hcase := hop hdemotes
    split at hcase
    case isTrue hmax => exact .inl hmax
    case isFalse => cases hcase.symm.trans hterminal
  | _ => trivial

/-- A function that is given up stays so until it is retired. -/
theorem step_terminal [TypeSizes] (h : s.Ok) (hop : s.LetsRest op) (hv : s.coordinator.Vacant k)
    (hterminal : s.coordinator.isTerminallyBlacklisted k = true) :
    (s.step op).coordinator.isTerminallyBlacklisted k = true ∨
      ((s.step op).coordinator.record k).retired = true := by
  have hsame := step_sameBlacklists h op
  obtain ⟨hretired, hcase⟩ := isTerminallyBlacklisted_iff.mp hterminal
  have hkept : ∀ t, ((s.coordinator.record k).tier t).state = .blacklisted →
      (((s.step op).coordinator.record k).tier t).state = .blacklisted := fun t hstate => by
    by_cases htouched : s.Touches op k t
    · exact step_spared (spares_of_letsRest hop hv hterminal htouched) htouched
        (tierState_eq_blacklisted.mpr ⟨hretired, hstate⟩)
    · exact (hsame.state k t htouched).mpr hstate
  by_cases hlater : ((s.step op).coordinator.record k).retired = true
  · exact .inr hlater
  refine .inl (isTerminallyBlacklisted_iff.mpr ⟨Bool.not_eq_true _ ▸ hlater, ?_⟩)
  refine hcase.imp (hkept .optimizing) ?_
  rintro ⟨hstate, hprofit⟩
  refine ⟨hkept .baseline hstate, ?_⟩
  rw [← hprofit]
  -- a demotion needs an installed baseline
  cases op with
  | demoteBaselineToInterpreter key =>
    by_cases hkey : k = key
    · subst hkey
      unfold step Coordinator.demoteBaselineToInterpreter
      dsimp only
      rw [if_neg]
      rintro ⟨-, hinstalled⟩
      rw [hv.installed .baseline] at hinstalled
      cases hinstalled
    · exact hsame.demotions k hkey
  | _ => exact hsame.demotions k id

/-- A profitability demotion is never undone. -/
theorem step_demotions [TypeSizes] (h : s.Ok)
    (hprofit : s.coordinator.profitabilityDemotions k = true) :
    (s.step op).coordinator.profitabilityDemotions k = true := by
  have hsame := step_sameBlacklists h op
  by_cases hdemotes : op.Demotes k
  · cases op with
    | demoteBaselineToInterpreter key =>
      cases hdemotes
      unfold step Coordinator.demoteBaselineToInterpreter
      dsimp only
      split
      · exact update_self ..
      · exact hprofit
    | _ => exact hdemotes.elim
  · exact (hsame.demotions k hdemotes).trans hprofit

/-- A completion that blacklists its tier leaves nothing of the function. -/
theorem complete_gives_up [TypeSizes] (h : s.Ok) {completion : CompileCompletion}
    (hop : s.LetsRest (.complete completion))
    (hbefore : ((s.coordinator.record completion.key).tier completion.requestedTier).state ≠
      .blacklisted)
    (hafter : (((s.coordinator.complete completion).1.record completion.key).tier
      completion.requestedTier).state = .blacklisted) :
    (s.coordinator.complete completion).1.Vacant completion.key := by
  obtain ⟨hlast, hfails⟩ := complete_blacklists hbefore hafter
  obtain ⟨hinstalled, hqueue⟩ := hop hfails hlast
  have hquiet := complete_quiet h.sound fun evicted hinstalled => by
    rw [hinstalled] at hfails
    cases hfails
  have hnarrows := complete_narrows s.coordinator completion
  refine ⟨fun t => ?_, fun r hr => hqueue r (hnarrows.queue r hr), ?_⟩
  · cases hkey : (s.coordinator.complete completion).1.installedKeys completion.key t with
    | none => rfl
    | some key => cases (hinstalled t).symm.trans (hquiet.stands.installed _ t key hkey).1
  · refine (complete_lands s.coordinator completion).resolve_left fun hsame => hbefore ?_
    rwa [hsame] at hafter

/-- What an operation that blacklists a tier leaves of the function. -/
theorem step_gives_up [TypeSizes] (h : s.Ok) (hop : s.LetsRest op) (htouched : s.Touches op k t)
    (hbefore : ((s.coordinator.record k).tier t).state ≠ .blacklisted)
    (hafter : (((s.step op).coordinator.record k).tier t).state = .blacklisted) :
    (s.step op).coordinator.Vacant k ∨
      t = .baseline ∧ (s.step op).coordinator.profitabilityDemotions k = true := by
  -- a written state that is not `blacklisted`
  have hopen : ∀ {c' : Coordinator} {f : FunctionState → FunctionState} {P : Prop},
      ((c'.record k).tier t).state = .blacklisted →
      (∀ k', c'.record k' = s.coordinator.record k' ∨
        k' = k ∧ c'.record k' = f (s.coordinator.record k')) →
      ((f (s.coordinator.record k)).tier t).state ≠ .blacklisted → P := by
    intro c' f P hstate hrecord hf
    rcases hrecord k with heq | ⟨-, heq⟩
    · rw [heq] at hstate
      exact absurd hstate hbefore
    · rw [heq] at hstate
      exact absurd hstate hf
  cases op with
  | rollback index =>
    obtain ⟨r, hr, rfl, rfl⟩ := htouched
    unfold step at hafter
    dsimp only at hafter
    rw [hr] at hafter
    dsimp only at hafter
    unfold Coordinator.rollback at hafter
    split at hafter
    · refine hopen hafter (record_of_modify rfl) ?_
      rw [state_setState_self]
      exact nofun
    · exact absurd hafter hbefore
  | complete completion =>
    obtain ⟨rfl, rfl⟩ := htouched
    exact .inl (complete_gives_up h hop hbefore hafter)
  | rejectTier1 key tier =>
    obtain ⟨rfl, rfl⟩ := htouched
    exact .inl (step_vacant h id hop)
  | demoteBaselineToInterpreter key =>
    obtain ⟨rfl, rfl⟩ := htouched
    unfold step Coordinator.demoteBaselineToInterpreter at hafter ⊢
    dsimp only at hafter ⊢
    split
    · exact .inr ⟨rfl, update_self ..⟩
    case isFalse hnot =>
      rw [if_neg hnot] at hafter
      exact absurd hafter hbefore
  | prepareBaselineDirectRefresh key =>
    obtain ⟨rfl, rfl⟩ := htouched
    unfold step Coordinator.prepareBaselineDirectRefresh at hafter
    dsimp only at hafter
    split at hafter
    · exact hopen hafter (record_of_modify rfl) nofun
    · exact absurd hafter hbefore
  | demoteUnprofitableOptimized key =>
    obtain ⟨rfl, rfl⟩ := htouched
    unfold step Coordinator.demoteUnprofitableOptimized at hafter
    dsimp only at hafter
    split at hafter
    · exact hopen hafter (record_of_update rfl rfl) nofun
    · exact absurd hafter hbefore
  | prepareStablePathRecompile key =>
    obtain ⟨rfl, rfl⟩ := htouched
    unfold step Coordinator.prepareStablePathRecompile at hafter
    dsimp only at hafter
    split at hafter
    · exact hopen hafter (record_of_modify rfl) nofun
    · exact absurd hafter hbefore
  | recordOptimizedSideExitProfile key guard observed =>
    obtain ⟨rfl, rfl⟩ := htouched
    unfold step Coordinator.recordOptimizedSideExitProfile at hafter ⊢
    dsimp only at hafter ⊢
    split
    case isTrue hdemotes =>
      rw [if_pos hdemotes] at hafter
      have hcase := hop hdemotes
      split at hcase
      case isTrue =>
        obtain ⟨hbaseline, hqueue, hflight⟩ := hcase
        refine .inl ⟨fun t => ?_, hqueue, hflight⟩
        show (if k = k ∧ t = .optimizing then none else s.coordinator.installedKeys k t) = none
        cases t with
        | baseline => exact (if_neg fun h => nomatch h.2).trans hbaseline
        | optimizing => exact if_pos ⟨rfl, rfl⟩
      case isFalse hmax =>
        refine hopen hafter (record_of_update rfl rfl) ?_
        show (if s.coordinator.maxAttempts ≤ satSuccU8 (s.coordinator.record k).instabilityAttempts
          then CompileState.blacklisted else _) ≠ _
        rw [if_neg hmax]
        exact nofun
    case isFalse hnot =>
      rw [if_neg hnot] at hafter
      split at hafter <;> exact absurd hafter hbefore
  | _ => exact htouched.elim

/-! ## Runs -/

/-- Nothing is left of the functions that are given up. -/
def Rested (s : JitSystem) : Prop :=
  ∀ k, s.coordinator.isTerminallyBlacklisted k = true → s.coordinator.Vacant k

theorem step_rested [TypeSizes] (h : s.Ok) (hrested : s.Rested) (hop : s.LetsRest op) :
    (s.step op).Rested := by
  intro k hterminal
  by_cases hbefore : s.coordinator.isTerminallyBlacklisted k = true
  · refine step_vacant h (fun hasks => ?_) (hrested k hbefore)
    cases op with
    | queue key =>
      subst hasks
      cases hop.symm.trans hbefore
    | queueSidePath key =>
      subst hasks
      cases hop.symm.trans hbefore
    | _ => exact hasks
  have hsame := step_sameBlacklists h op
  obtain ⟨hretired, hcase⟩ := isTerminallyBlacklisted_iff.mp hterminal
  have hlive : (s.coordinator.record k).retired = false := by
    by_contra hnot
    cases hretired.symm.trans (hsame.retired k (Bool.not_eq_false _ ▸ hnot))
  rcases hcase with hstate | ⟨hstate, hprofit⟩
  · have hopen : ((s.coordinator.record k).tier .optimizing).state ≠ .blacklisted := fun hstate =>
      hbefore (isTerminallyBlacklisted_iff.mpr ⟨hlive, .inl hstate⟩)
    have htouched : s.Touches op k .optimizing := by
      by_contra hnot
      exact hopen ((hsame.state k _ hnot).mp hstate)
    exact (step_gives_up h hop htouched hopen hstate).resolve_right fun hcase => nomatch hcase.1
  · have hdemotions : op.Demotes k → s.Touches op k .baseline := by
      intro hdemotes
      cases op with
      | demoteBaselineToInterpreter key => exact ⟨hdemotes, rfl⟩
      | _ => exact hdemotes.elim
    by_cases htouched : s.Touches op k .baseline
    · by_cases hopen : ((s.coordinator.record k).tier .baseline).state = .blacklisted
      · -- the tier was blacklisted by a profitability demotion, which is not undone
        exfalso
        have hprofit' : s.coordinator.profitabilityDemotions k = true := by
          by_contra hnot
          exact hbefore (isTerminallyBlacklisted_iff.mpr
            ⟨hlive, .inr ⟨hopen, Bool.not_eq_true _ ▸ hnot⟩⟩)
        cases (step_demotions h hprofit').symm.trans hprofit
      · refine (step_gives_up h hop htouched hopen hstate).resolve_right fun hcase => ?_
        cases hcase.2.symm.trans hprofit
    · refine absurd (isTerminallyBlacklisted_iff.mpr ⟨hlive, .inr ⟨?_, ?_⟩⟩) hbefore
      · exact (hsame.state k _ htouched).mp hstate
      · exact (hsame.demotions k (mt hdemotions htouched)).symm.trans hprofit

/-- A function that counts as given up in some state of a run that lets such
functions rest has no code there and in no later state. -/
theorem terminal_no_code [TypeSizes] (maxQueueLen maxAttempts : Nat) (limits : CacheLimits)
    (environment : ArtifactEnvironment) (ops later : List CoordinatorOp)
    (hops : Meets step LetsRest (start maxQueueLen maxAttempts limits environment) (ops ++ later))
    (k : FunctionKey)
    (hterminal : (runs step (start maxQueueLen maxAttempts limits environment)
      ops).coordinator.isTerminallyBlacklisted k = true) (t : Tier) :
    ((runs step (start maxQueueLen maxAttempts limits environment)
      (ops ++ later)).coordinator.pin k t).2 = none := by
  obtain ⟨hfirst, hlater⟩ := meets_append.mp hops
  have hrested : (runs step (start maxQueueLen maxAttempts limits environment) ops).Ok ∧
      (runs step (start maxQueueLen maxAttempts limits environment) ops).Rested := by
    refine runs_inv_of_meets (P := fun s => s.Ok ∧ s.Rested) ?_ ⟨start_ok, fun k h => nomatch h⟩ hfirst
    intro s op hop ⟨hok, hrested⟩
    exact ⟨step_ok s op hok, step_rested hok hrested hop⟩
  -- from there on the function is given up or retired
  let P : JitSystem → Prop := fun s => (s.Ok ∧ s.Rested) ∧
    (s.coordinator.isTerminallyBlacklisted k = true ∨ (s.coordinator.record k).retired = true)
  have hlast : P (runs step (runs step (start maxQueueLen maxAttempts limits environment) ops)
      later) := by
    refine runs_inv_of_meets (P := P) ?_ ⟨hrested, .inl hterminal⟩ hlater
    rintro s op hop ⟨⟨hok, hrested⟩, hcase⟩
    refine ⟨⟨step_ok s op hok, step_rested hok hrested hop⟩, ?_⟩
    rcases hcase with hterminal | hretired
    · exact step_terminal hok hop (hrested k hterminal) hterminal
    · exact .inr ((step_sameBlacklists hok op).retired k hretired)
  rw [runs_append]
  obtain ⟨⟨hok, hrested⟩, hcase⟩ := hlast
  rcases hcase with hterminal | hretired
  · exact (hrested k hterminal).pin t
  · exact (unavailable_of_barred hok (.inl hretired)).pin t

end JitSystem

open scoped Sample

/-- Function 1 is rejected before anything of it is compiled; function 2 is
compiled afterwards. -/
theorem terminal_no_code_rejected :
    let ops := [CoordinatorOp.rejectTier1 ⟨1, 1⟩ .baseline]
    let later := sampleCompile 1 (sampleArtifact (sampleKey ⟨2, 1⟩ .baseline 0) 10 [])
    let s := JitSystem.start 8 3 (.shared 1000) sampleEnvironment
    Meets JitSystem.step JitSystem.LetsRest s (ops ++ later) ∧
      (runs JitSystem.step s ops).coordinator.isTerminallyBlacklisted ⟨1, 1⟩ = true ∧
      ∀ t, ((runs JitSystem.step s (ops ++ later)).coordinator.pin ⟨1, 1⟩ t).2 = none := by
  intro ops later s
  have hterminal : (runs JitSystem.step s ops).coordinator.isTerminallyBlacklisted ⟨1, 1⟩ = true := by
    decide +kernel
  have hmeets : Meets JitSystem.step JitSystem.LetsRest s (ops ++ later) := by
    refine ⟨⟨fun _ => rfl, nofun, rfl⟩, ?_, trivial, ?_, trivial⟩
    · show Coordinator.isTerminallyBlacklisted _ _ = false
      decide +kernel
    · show _ = true → _
      exact fun hfails => absurd hfails (by decide +kernel)
  exact ⟨hmeets, hterminal, JitSystem.terminal_no_code 8 3 _ _ ops later hmeets _ hterminal⟩

/-- After a baseline was compiled, the optimizing tier fails its only attempt:
the function counts as given up, and its baseline can be entered. -/
theorem terminal_with_baseline :
    let s := runs JitSystem.step (JitSystem.start 8 1 (.shared 1000) sampleEnvironment)
      (sampleCompile 1 (sampleArtifact (sampleKey ⟨1, 1⟩ .baseline 0) 10 []) ++
        [sampleQueue ⟨1, 1⟩ .optimizing 0, .beginNext,
          .complete ⟨⟨1, 1⟩, .optimizing, sampleKey ⟨1, 1⟩ .optimizing 0, 2, .error .unsupportedOpcode⟩])
    s.coordinator.isTerminallyBlacklisted ⟨1, 1⟩ = true ∧
      (s.coordinator.pin ⟨1, 1⟩ .baseline).2 ≠ none := by
  decide +kernel

end QuickJit
