import QuickJit.Bytecode.Sample
import QuickJit.Runtime.Completions
import QuickJit.Runtime.Requests

/-
  Every run of the system is a life of each function.

  A request can only be rolled back by the party it was handed to, and attempt
  ids tell requests apart (`Identified`); so a flight that matches a dispatched
  request is that request's. With this, every operation is a number of steps in
  the life of each function (`step_moves`), and what lives keep holds in every
  reachable state (`reachable_ok`). Steps that leave pending tiers alone
  (`Undisturbed`) are careful steps.
-/

namespace QuickJit

open Function

variable {r : CompileRequest} {op : CoordinatorOp} {k : FunctionKey} {flight : InFlight}
  {guard : Nat} {observed : Option ObservedType} {tier : Tier}

namespace Coordinator

variable {c c' c'' : Coordinator} {pins : List Address} {careful : Prop}
  {key k : FunctionKey} {dispatched : List CompileRequest}

/-! ## Operations that take no request in -/

/-- `c'` has no request, flight or attempt id that `c` does not have. -/
structure Narrows (c c' : Coordinator) : Prop where
  queue : ∀ r ∈ c'.queue, r ∈ c.queue
  nextAttemptId : c'.nextAttemptId = c.nextAttemptId
  inFlight : ∀ k flight, c'.inFlight k = some flight → c.inFlight k = some flight

theorem Narrows.of_eq (hqueue : c'.queue = c.queue) (hnext : c'.nextAttemptId = c.nextAttemptId)
    (hflight : c'.inFlight = c.inFlight) : c.Narrows c' :=
  ⟨fun _ h => hqueue ▸ h, hnext, fun _ _ h => hflight ▸ h⟩

theorem Narrows.refl (c : Coordinator) : c.Narrows c := .of_eq rfl rfl rfl

theorem Narrows.trans (h : c.Narrows c') (h' : c'.Narrows c'') : c.Narrows c'' :=
  ⟨fun r hr => h.queue r (h'.queue r hr), h'.nextAttemptId.trans h.nextAttemptId,
    fun k flight hf => h.inFlight k flight (h'.inFlight k flight hf)⟩

theorem flight_of_cleared {flights : FunctionKey → Option InFlight}
    (h : Function.update flights key none k = some flight) : flights k = some flight := by
  by_cases hk : k = key
  · subst hk
    rw [update_self] at h
    cases h
  · rwa [update_of_ne hk] at h

theorem retireState_narrows (c : Coordinator) (key : FunctionKey) : c.Narrows (c.retireState key) :=
  ⟨fun _ hr => (List.mem_filter.mp hr).1, rfl, fun _ _ h => flight_of_cleared h⟩

theorem foldl_retireState_narrows :
    ∀ (keys : List FunctionKey) (c : Coordinator), c.Narrows (keys.foldl retireState c)
  | [], c => .refl c
  | key :: keys, c => (retireState_narrows c key).trans (foldl_retireState_narrows keys _)

section

variable (c : Coordinator)

theorem advanceGeneration_narrows (key : FunctionKey) :
    c.Narrows (c.advanceGeneration key) := by
  unfold advanceGeneration
  split
  · exact (foldl_retireState_narrows _ c).trans (.of_eq rfl rfl rfl)
  · exact .refl c

theorem retire_narrows (key : FunctionKey) : c.Narrows (c.retire key) := by
  rw [retire_eq]
  refine (advanceGeneration_narrows c key).trans (.trans ?_ (foldl_retireState_narrows _ _))
  exact .of_eq rfl rfl rfl

theorem shutDown_narrows : c.Narrows c.shutDown := by
  unfold shutDown
  split
  · exact .refl c
  · have hclear : c.Narrows c.cleared := ⟨nofun, rfl, nofun⟩
    exact hclear.trans ((foldl_retireState_narrows _ _).trans (.of_eq rfl rfl rfl))

theorem prioritize_narrows (key : FunctionKey) (tier : Tier) :
    c.Narrows (c.prioritize key tier).1 := by
  unfold prioritize
  split
  case h_1 request hfind =>
    exact ⟨fun r hr => (perm_cons_eraseP hfind).mem_iff.mp hr, rfl, fun _ _ h => h⟩
  case h_2 => exact .refl c

theorem rejectTier1_narrows (key : FunctionKey) (tier : Tier) :
    c.Narrows (c.rejectTier1 key tier) :=
  (advanceGeneration_narrows c key).trans (.of_eq rfl rfl rfl)

/-- A refused request leaves no request behind. -/
theorem queueRequest_narrows (key : FunctionKey) (tier : Tier) (snapshot : VerifiedSnapshot)
    (feedback : FeedbackSnapshot) (sidePath : Option SidePathProfile) (targets : CallTargets) :
    (c.queueRequest key tier snapshot feedback sidePath targets).2 ≠ .ok () →
      c.Narrows (c.queueRequest key tier snapshot feedback sidePath targets).1 := by
  unfold queueRequest
  split
  · exact fun _ => .refl _
  · dsimp only
    split
    · exact fun _ => advanceGeneration_narrows ..
    · split
      · exact fun _ => advanceGeneration_narrows ..
      · exact fun h => absurd rfl h

theorem publish_narrows [TypeSizes] (key : FunctionKey) (tier : Tier) (flight : InFlight)
    (artifact : CompiledArtifact) (staged : DependencyGraph) :
    c.Narrows (c.publish key tier flight artifact staged).1 := by
  unfold publish
  split
  · split
    · refine .of_eq ?_ ?_ ?_
      · exact foldl_recordEviction_fixed Coordinator.queue (fun _ _ => rfl) _ _
      · exact foldl_recordEviction_fixed Coordinator.nextAttemptId (fun _ _ => rfl) _ _
      · exact foldl_recordEviction_fixed Coordinator.inFlight (fun _ _ => rfl) _ _
    · exact .of_eq rfl rfl rfl
  · exact .of_eq rfl rfl rfl

theorem complete_narrows [TypeSizes] (completion : CompileCompletion) :
    c.Narrows (c.complete completion).1 := by
  have hclear : c.Narrows
      { c with inFlight := Function.update c.inFlight completion.key none } :=
    ⟨fun _ h => h, rfl, fun _ _ h => flight_of_cleared h⟩
  unfold complete
  split
  · exact .refl c
  split
  · split
    · split
      · unfold accept
        dsimp only
        split
        · exact hclear.trans (.of_eq rfl rfl rfl)
        split
        · exact hclear.trans (.of_eq rfl rfl rfl)
        split
        · exact hclear.trans (.of_eq rfl rfl rfl)
        · refine (hclear.trans ?_).trans (publish_narrows ..)
          exact .of_eq rfl rfl rfl
      · exact .refl c
    · exact hclear.trans (.of_eq rfl rfl rfl)
  · exact .refl c

/-! ## Attempt ids -/

end

/-- Attempt ids identify the requests that are queued or handed out, and every
flight is that of a request handed out. -/
structure Identified (c : Coordinator) (dispatched : List CompileRequest) : Prop where
  bound : ∀ r ∈ c.queue ++ dispatched, r.attemptId ≤ c.nextAttemptId
  unique : ∀ r ∈ c.queue ++ dispatched, ∀ r' ∈ c.queue ++ dispatched,
    r.attemptId = r'.attemptId → r.flight = r'.flight
  inFlight : ∀ k flight, c.inFlight k = some flight → ∃ r ∈ dispatched, r.flight = flight

theorem Narrows.identified (h : c.Narrows c') (hi : c.Identified dispatched) :
    c'.Identified dispatched := by
  have hmem : ∀ r ∈ c'.queue ++ dispatched, r ∈ c.queue ++ dispatched := fun r hr =>
    List.mem_append.mpr ((List.mem_append.mp hr).imp_left (h.queue r))
  exact ⟨fun r hr => h.nextAttemptId ▸ hi.bound r (hmem r hr),
    fun r hr r' hr' => hi.unique r (hmem r hr) r' (hmem r' hr'),
    fun k flight hf => hi.inFlight k flight (h.inFlight k flight hf)⟩

/-- A flight with the attempt id of a request handed out is the flight of that
request. -/
theorem Identified.flight_eq (hi : c.Identified dispatched) (hr : r ∈ dispatched)
    (hflight : c.inFlight k = some flight) (hid : flight.attemptId = r.attemptId) :
    flight = r.flight := by
  obtain ⟨r', hr', rfl⟩ := hi.inFlight k flight hflight
  exact hi.unique r' (List.mem_append_right _ hr') r (List.mem_append_right _ hr) hid

theorem Accepted.identified (h : Accepted careful c pins r c') (hi : c.Identified dispatched) :
    c'.Identified dispatched := by
  have hnarrow := advanceGeneration_narrows c r.key
  have hold : ∀ r' ∈ c'.queue ++ dispatched, r' = r ∨ r' ∈ c.queue ++ dispatched := by
    intro r' hr'
    rw [h.queue_eq, List.append_assoc, List.mem_append] at hr'
    rcases hr' with hr' | hr'
    · exact .inr (List.mem_append_left _ (hnarrow.queue r' hr'))
    · exact (List.mem_cons.mp hr').imp_right (List.mem_append_right _)
  -- the new request has an id that none of the others has
  have hlt : ∀ r' ∈ c.queue ++ dispatched, r'.attemptId < r.attemptId := fun r' hr' => by
    have hle := hi.bound r' hr'
    rw [h.attemptId_eq]
    omega
  refine ⟨fun r' hr' => ?_, fun r₁ hr₁ r₂ hr₂ hid => ?_, fun k flight hf => ?_⟩
  · rw [h.nextAttemptId_eq]
    rcases hold r' hr' with rfl | hr'
    · exact Nat.le_refl _
    · exact (hlt r' hr').le
  · rcases hold r₁ hr₁ with rfl | hr₁ <;> rcases hold r₂ hr₂ with rfl | hr₂
    · rfl
    · exact absurd hid (hlt r₂ hr₂).ne'
    · exact absurd hid (hlt r₁ hr₁).ne
    · exact hi.unique r₁ hr₁ r₂ hr₂ hid
  · rw [h.inFlight_eq] at hf
    exact hi.inFlight k flight (hnarrow.inFlight k flight hf)

theorem beginNext_identified (hi : c.Identified dispatched) :
    c.beginNext.1.Identified (c.beginNext.2.toList ++ dispatched) := by
  unfold beginNext
  split
  case h_1 =>
    have hnarrow : c.Narrows { c with queue := [] } := ⟨nofun, rfl, fun _ _ h => h⟩
    exact hnarrow.identified hi
  case h_2 request queue heq =>
    have hqueue : ∀ r ∈ request :: queue, r ∈ c.queue := fun r hr =>
      (List.dropWhile_suffix _).subset (heq ▸ hr)
    have hmem : ∀ r ∈ queue ++ (request :: dispatched), r ∈ c.queue ++ dispatched := by
      intro r hr
      rcases List.mem_append.mp hr with hr | hr
      · exact List.mem_append_left _ (hqueue r (List.mem_cons_of_mem _ hr))
      · rcases List.mem_cons.mp hr with rfl | hr
        · exact List.mem_append_left _ (hqueue r List.mem_cons_self)
        · exact List.mem_append_right _ hr
    refine ⟨fun r hr => hi.bound r (hmem r hr),
      fun r hr r' hr' => hi.unique r (hmem r hr) r' (hmem r' hr'), fun k flight hf => ?_⟩
    have hf : Function.update c.inFlight request.key (some request.flight) k = some flight := hf
    by_cases hk : k = request.key
    · rw [hk, update_self] at hf
      exact ⟨request, List.mem_cons_self, Option.some.inj hf⟩
    · rw [update_of_ne hk] at hf
      obtain ⟨r, hr, hflight⟩ := hi.inFlight k flight hf
      exact ⟨r, List.mem_cons_of_mem _ hr, hflight⟩

theorem rollback_identified (hi : c.Identified dispatched) (hr : r ∈ dispatched) :
    (c.rollback r).Identified dispatched := by
  unfold rollback
  split
  case isFalse => exact hi
  case isTrue =>
    have hmem : ∀ r' ∈ (r :: c.queue) ++ dispatched, r' ∈ c.queue ++ dispatched := by
      intro r' hr'
      rcases List.mem_cons.mp hr' with rfl | hr'
      · exact List.mem_append_right _ hr
      · exact hr'
    exact ⟨fun r' hr' => hi.bound r' (hmem r' hr'),
      fun r₁ hr₁ r₂ hr₂ => hi.unique r₁ (hmem r₁ hr₁) r₂ (hmem r₂ hr₂),
      fun k flight hf => hi.inFlight k flight (flight_of_cleared hf)⟩

/-! ## Pending tiers -/

/-- Whether a request of the tier is queued or compiling. -/
def isPending (c : Coordinator) (key : FunctionKey) (tier : Tier) : Bool :=
  c.tierState key tier = .queued tier || c.tierState key tier = .compiling tier

theorem tierState_eq_active {state : CompileState} (hactive : state.isActive = true) :
    c.tierState key tier = state ↔
      (c.record key).retired = false ∧ ((c.record key).tier tier).state = state := by
  have hcold : CompileState.cold ≠ state := fun h => by subst h; cases hactive
  have hretired : CompileState.retired ≠ state := fun h => by subst h; cases hactive
  have hinstalled : ∀ t, CompileState.installed t ≠ state := fun t h => by subst h; cases hactive
  unfold tierState record
  cases c.functions.get? key with
  | none =>
    have hnew : (FunctionState.new.tier tier).state = .cold := by cases tier <;> rfl
    simp [hnew, hcold]
  | some f =>
    simp only [Option.getD_some]
    cases hr : f.retired with
    | true => simp [hretired]
    | false =>
      by_cases hs : (f.tier tier).state = .cold
      · have hquiet : (if f.published = some tier ∨ (c.installedKeys key tier).isSome = true then
            CompileState.installed tier else CompileState.cold) ≠ state := by
          split
          · exact hinstalled tier
          · exact hcold
        simp [hs, hcold, hquiet]
      · simp [hs]

theorem isPending_iff (accepted : Tier → Option CompileRequest) :
    c.isPending key tier = true ↔ (c.life accepted key).Pending tier := by
  unfold isPending Life.Pending
  rw [Bool.or_eq_true, decide_eq_true_eq, decide_eq_true_eq, tierState_eq_active rfl,
    tierState_eq_active rfl, ← and_or_left]
  rfl

/-- An exit of the only guard that ever failed, with the type it failed with, is
no sign of instability. -/
theorem isUnstable_eq_false (hguard : ∀ g ∈ (c.sideExits key).keys, g = guard)
    (hobserved : ∀ prior, c.sideExitObservations key guard = some prior → prior = observed) :
    c.isUnstable key guard observed = false := by
  have hkeys : ∀ g ∈ (c.countExit key guard).keys, g = guard := fun g hg => by
    obtain ⟨n, hn⟩ := OrdMap.mem_keys.mp hg
    by_contra hne
    unfold countExit at hn
    rw [OrdMap.get?_insert_ne _ _ (Ne.symm hne)] at hn
    exact hne (hguard g (OrdMap.mem_keys.mpr ⟨n, hn⟩))
  have hlength : ¬ 1 < (c.countExit key guard).entries.length := fun hlt => by
    have hsorted := (c.countExit key guard).keys_sorted
    have hlen : (c.countExit key guard).keys.length = (c.countExit key guard).entries.length :=
      List.length_map ..
    match hk : (c.countExit key guard).keys, hkeys, hsorted with
    | [], _, _ => simp [hk] at hlen; omega
    | [_], _, _ => simp [hk] at hlen; omega
    | a :: b :: rest, hkeys, hsorted =>
      have hab := List.rel_of_pairwise_cons hsorted List.mem_cons_self
      rw [hkeys a (by simp), hkeys b (by simp)] at hab
      exact Nat.lt_irrefl _ hab
  unfold isUnstable
  simp only [decide_eq_false hlength, Bool.false_or]
  cases hprior : c.sideExitObservations key guard with
  | none => rfl
  | some prior => simp [hobserved prior hprior]

theorem exitDemotes_eq_false (hstable : c.isUnstable key guard observed = false)
    (hpending : c.isPending key .optimizing = true) :
    c.exitDemotes key guard observed = false := by
  have hside : c.sidePathPending key = true := by
    unfold isPending at hpending
    rw [Bool.or_eq_true, decide_eq_true_eq, decide_eq_true_eq, tierState_eq_active rfl,
      tierState_eq_active rfl] at hpending
    unfold sidePathPending
    rcases hpending with ⟨-, hstate⟩ | ⟨-, hstate⟩
    · rw [show (c.record key).optimizing.state = _ from hstate]
    · rw [show (c.record key).optimizing.state = _ from hstate]
  unfold exitDemotes
  rw [hstable, hside]
  simp

end Coordinator

/-- Whether an operation takes a request in, hands one out or takes it back. -/
def CoordinatorOp.movesRequests : CoordinatorOp → Bool
  | .queue .. | .queueSidePath .. | .beginNext | .rollback .. => true
  | _ => false

namespace JitSystem

open Coordinator

variable {s s' : JitSystem} {careful : Prop}

/-! ## Steps of the system -/

/-- The operation does not give up a tier whose request is queued or
compiling. -/
def Undisturbed (s : JitSystem) : CoordinatorOp → Prop
  | .rejectTier1 key tier => s.coordinator.isPending key tier = false
  | .demoteUnprofitableOptimized key | .prepareStablePathRecompile key =>
    s.coordinator.isPending key .optimizing = true →
      s.coordinator.installedKeys key .baseline = none ∨
        s.coordinator.installedKeys key .optimizing = none
  | .recordOptimizedSideExitProfile key guard observed =>
    s.coordinator.isPending key .optimizing = true →
      (∀ g ∈ (s.coordinator.sideExits key).keys, g = guard) ∧
        ∀ prior, s.coordinator.sideExitObservations key guard = some prior → prior = observed
  | _ => True

/-- What holds of the coordinator and its surroundings in every reachable
state. -/
structure Ok (s : JitSystem) : Prop where
  sound : s.coordinator.cache.Sound s.pins []
  identified : s.coordinator.Identified s.dispatched
  life : ∀ k, (s.life k).Ok k (s.coordinator.baseKey k)

/-- From `s` to `s'` by steps in the life of each function. -/
structure Moves (careful : Prop) (s s' : JitSystem) : Prop where
  sound : s'.coordinator.cache.Sound s'.pins []
  environment : s'.coordinator.environment = s.coordinator.environment
  steps : ∀ k, Life.Steps k (s.coordinator.baseKey k) careful (s.life k) (s'.life k)

theorem Moves.of_evolves (h : Evolves careful s.coordinator s.pins s'.coordinator s'.pins)
    (haccepted : s'.accepted = s.accepted) : Moves careful s s' := by
  refine ⟨h.sound, h.environment, fun k => ?_⟩
  unfold JitSystem.life
  rw [haccepted]
  exact h.steps (s.accepted k) k

/-- An accepted request becomes the last accepted one. -/
theorem Moves.of_accepted {c : Coordinator} (h : Accepted careful s.coordinator s.pins r c) :
    Moves careful s (s.queued r.key r.tier (c, .ok ())) := by
  have hlast : c.queue.getLast? = some r := by
    rw [h.queue_eq, List.getLast?_append]
    rfl
  refine ⟨h.sound, h.environment, fun k => ?_⟩
  by_cases hk : k = r.key
  · subst hk
    have haccepted : (s.queued r.key r.tier (c, .ok ())).accepted r.key =
        Function.update (s.accepted r.key) r.tier (some r) := by
      funext t
      show (if r.key = r.key ∧ t = r.tier then c.queue.getLast? else _) = _
      by_cases ht : t = r.tier
      · rw [if_pos ⟨rfl, ht⟩, hlast, ht, update_self]
      · rw [if_neg fun h => ht h.2, update_of_ne ht]
    unfold JitSystem.life
    rw [haccepted]
    exact h.self (s.accepted r.key)
  · have haccepted : (s.queued r.key r.tier (c, .ok ())).accepted k = s.accepted k := by
      funext t
      exact if_neg fun h => hk h.1
    unfold JitSystem.life
    rw [haccepted]
    exact h.other (s.accepted k) k hk

/-- What a queue operation does to the system. -/
theorem queueRequest_moves (careful : Prop) (h : s.Ok) (key : FunctionKey) (tier : Tier)
    (snapshot : VerifiedSnapshot) (feedback : FeedbackSnapshot) (sidePath : Option SidePathProfile)
    (targets : CallTargets) (hside : tier = .baseline → sidePath = none) :
    Moves careful s (s.queued key tier
      (s.coordinator.queueRequest key tier snapshot feedback sidePath targets)) ∧
    (s.coordinator.queueRequest key tier snapshot feedback sidePath targets).1.Identified
      s.dispatched := by
  have hspec := queueRequest_spec careful h.sound key tier snapshot feedback sidePath targets hside
  have hcheck := queueRequest_narrows s.coordinator key tier snapshot feedback sidePath targets
  generalize s.coordinator.queueRequest key tier snapshot feedback sidePath targets = result at *
  obtain ⟨c, reply⟩ := result
  rcases hspec with ⟨e, heq, hevolves⟩ | ⟨heq, -, r, rfl, rfl, haccepted⟩
  · subst heq
    exact ⟨.of_evolves hevolves rfl, (hcheck nofun).identified h.identified⟩
  · subst heq
    exact ⟨.of_accepted haccepted, haccepted.identified h.identified⟩

/-- The functions that have something installed or in flight are known. -/
theorem Ok.known (h : s.Ok) (hengaged : (s.life k).Engaged) :
    s.coordinator.functions.contains k = true := ((h.life k).live hengaged).known

/-- Installed artifacts are resident and valid. -/
theorem Ok.lookup (h : s.Ok) {t : Tier} {key : ArtifactKey}
    (hi : s.coordinator.installedKeys k t = some key) :
    Life.KeyFor k (s.coordinator.baseKey k) key t ∧
      ∃ x, s.coordinator.cache.lookup key = some x ∧ x.invalidated = false := by
  obtain ⟨hfor, x, hx, hvalid⟩ := (h.life k).installed t key hi
  have hx : (if key.function = k then s.coordinator.cache.lookup key else none) = some x := hx
  rw [if_pos hfor.function_eq] at hx
  exact ⟨hfor, x, hx, hvalid⟩

/-- Every operation is a number of steps in the life of each function. -/
theorem step_moves [TypeSizes] (h : s.Ok) (op : CoordinatorOp) (hcareful : careful → s.Undisturbed op) :
    Moves careful s (s.step op) := by
  cases op with
  | queue key tier snapshot feedback targets =>
    exact (queueRequest_moves careful h key tier snapshot feedback none targets fun _ => rfl).1
  | queueSidePath key snapshot feedback profile =>
    unfold step queueSidePath
    dsimp only
    split
    · exact (queueRequest_moves careful h key .optimizing snapshot feedback (some profile) _ nofun).1
    · exact .of_evolves (.refl h.sound) rfl
  | prioritize key tier => exact .of_evolves (prioritize_evolves h.sound key tier) rfl
  | beginNext => exact .of_evolves (beginNext_evolves h.sound) rfl
  | rollback index =>
    unfold step
    dsimp only
    split
    case h_1 request hrequest =>
      refine .of_evolves (rollback_evolves h.sound (fun hflight => ?_) fun flight hflight hid _ => ?_) rfl
      · exact h.known (.inr (.inl hflight))
      · exact h.identified.flight_eq (List.mem_of_getElem? hrequest) hflight hid
    case h_2 => exact .of_evolves (.refl h.sound) rfl
  | complete completion =>
    refine .of_evolves (complete_evolves h.sound completion fun flight hflight => ?_) rfl
    exact ((h.life completion.key).flight flight hflight).function_eq
  | rejectTier1 key tier =>
    refine .of_evolves (rejectTier1_evolves h.sound key tier fun hc accepted hpending => ?_) rfl
    cases (hcareful hc).symm.trans ((isPending_iff accepted).mpr hpending)
  | retire key => exact .of_evolves (retire_evolves h.sound key) rfl
  | demoteBaselineToInterpreter key =>
    exact .of_evolves (demoteBaselineToInterpreter_evolves h.sound key) rfl
  | prepareBaselineDirectRefresh key =>
    exact .of_evolves (prepareBaselineDirectRefresh_evolves h.sound key) rfl
  | demoteUnprofitableOptimized key =>
    refine .of_evolves (demoteUnprofitableOptimized_evolves h.sound key
      fun hc hboth accepted hpending => ?_) rfl
    have hcase := hcareful hc ((isPending_iff accepted).mpr hpending)
    rcases hcase with hnone | hnone <;> simp [bothInstalled, hnone] at hboth
  | prepareStablePathRecompile key =>
    refine .of_evolves (prepareStablePathRecompile_evolves h.sound key (fun hinstalled => ?_)
      fun hc hboth accepted hpending => ?_) rfl
    · exact h.known (.inr (.inr ⟨.baseline, Option.isSome_iff_ne_none.mp hinstalled⟩))
    · have hcase := hcareful hc ((isPending_iff accepted).mpr hpending)
      rcases hcase with hnone | hnone <;> simp [bothInstalled, hnone] at hboth
  | recordOptimizedSideExitProfile key guard observed =>
    refine .of_evolves (recordOptimizedSideExitProfile_evolves h.sound key guard observed
      fun hc hdemotes accepted hpending => ?_) rfl
    have hpending := (isPending_iff accepted).mpr hpending
    obtain ⟨hguard, hobserved⟩ := hcareful hc hpending
    cases (exitDemotes_eq_false (isUnstable_eq_false hguard hobserved) hpending).symm.trans hdemotes
  | recordBenefit key tier savedNs =>
    exact .of_evolves (recordBenefit_evolves h.sound key tier savedNs) rfl
  | registerCallSpecialization primary call =>
    exact .of_evolves (registerCallSpecialization_evolves h.sound primary call) rfl
  | resolveCompiledCallTarget primary call =>
    exact .of_evolves (resolveCompiledCallTarget_evolves h.sound primary call) rfl
  | pin key tier => exact .of_evolves (pin_evolves h.sound key tier) rfl
  | dropPin pin =>
    unfold step
    dsimp only
    split
    case isTrue hpin => exact .of_evolves (dropPin_evolves h.sound hpin) rfl
    case isFalse => exact .of_evolves (.refl h.sound) rfl
  | pollReclamation budget => exact .of_evolves (pollReclamation_evolves h.sound budget) rfl
  | advanceClock now => exact .of_evolves (advanceClock_evolves h.sound now) rfl
  | shutDown => exact .of_evolves (shutDown_evolves h.sound) rfl

/-- The operation deals with pins or call specializations. -/
def usesCode : CoordinatorOp → Bool
  | .registerCallSpecialization .. | .resolveCompiledCallTarget .. | .pin .. | .dropPin .. => true
  | _ => false

/-- Such an operation leaves all but the cache's counters and the call
specializations alone. -/
theorem step_usesCode [TypeSizes] (h : s.Ok) (hop : usesCode op = true) :
    ∃ cache versions, (s.step op).coordinator =
      { s.coordinator with cache, callSpecializationVersions := versions } ∧
        ∀ key, cache.lookup key = s.coordinator.cache.lookup key := by
  cases op with
  | registerCallSpecialization primary call =>
    obtain ⟨versions, heq⟩ := registerCallSpecialization_eq (c := s.coordinator) primary call
    exact ⟨_, versions, heq, fun _ => rfl⟩
  | resolveCompiledCallTarget primary call =>
    obtain ⟨cache, versions, heq, -, hlookup⟩ := resolveCompiledCallTarget_spec h.sound primary call
    exact ⟨cache, versions, heq, hlookup⟩
  | pin key tier =>
    obtain ⟨cache, heq, -, hlookup⟩ := pin_spec h.sound key tier
    exact ⟨cache, _, heq, hlookup⟩
  | dropPin pin =>
    unfold step
    dsimp only
    split
    · exact ⟨_, _, rfl, fun _ => CodeCache.lookup_dropPin ..⟩
    · exact ⟨_, _, rfl, fun _ => rfl⟩
  | _ => cases hop

/-- Every operation that neither takes a request in nor hands one out. -/
theorem step_narrows [TypeSizes] (h : s.Ok) (hop : op.movesRequests = false) :
    s.coordinator.Narrows (s.step op).coordinator := by
  by_cases huses : usesCode op = true
  · obtain ⟨cache, versions, heq, -⟩ := step_usesCode h huses
    rw [heq]
    exact .of_eq rfl rfl rfl
  cases op with
  | queue | queueSidePath | beginNext | rollback => cases hop
  | prioritize key tier => exact prioritize_narrows ..
  | complete completion => exact complete_narrows ..
  | rejectTier1 key tier => exact rejectTier1_narrows ..
  | retire key => exact retire_narrows ..
  | demoteBaselineToInterpreter key =>
    unfold step demoteBaselineToInterpreter
    dsimp only
    split <;> exact .of_eq rfl rfl rfl
  | prepareBaselineDirectRefresh key =>
    unfold step prepareBaselineDirectRefresh
    dsimp only
    split <;> exact .of_eq rfl rfl rfl
  | demoteUnprofitableOptimized key =>
    unfold step demoteUnprofitableOptimized
    dsimp only
    split <;> exact .of_eq rfl rfl rfl
  | prepareStablePathRecompile key =>
    unfold step prepareStablePathRecompile
    dsimp only
    split <;> exact .of_eq rfl rfl rfl
  | recordOptimizedSideExitProfile key guard observed =>
    unfold step recordOptimizedSideExitProfile
    dsimp only
    split
    · exact .of_eq rfl rfl rfl
    · split <;> exact .of_eq rfl rfl rfl
  | recordBenefit key tier savedNs =>
    unfold step recordBenefit
    dsimp only
    split <;> exact .of_eq rfl rfl rfl
  | registerCallSpecialization | resolveCompiledCallTarget | pin | dropPin =>
    exact absurd rfl huses
  | pollReclamation budget => exact .of_eq rfl rfl rfl
  | advanceClock now => exact .of_eq rfl rfl rfl
  | shutDown => exact shutDown_narrows _

/-- Only `begin_next` hands requests out. -/
theorem step_dispatched [TypeSizes] (hop : op.movesRequests = false) :
    (s.step op).dispatched = s.dispatched := by
  cases op with
  | queue | queueSidePath | beginNext | rollback => cases hop
  | dropPin pin =>
    unfold step
    dsimp only
    split <;> rfl
  | _ => rfl

/-- Every operation keeps attempt ids apart. -/
theorem step_identified [TypeSizes] (h : s.Ok) (op : CoordinatorOp) :
    (s.step op).coordinator.Identified (s.step op).dispatched := by
  by_cases hop : op.movesRequests = false
  · rw [step_dispatched hop]
    exact (step_narrows h hop).identified h.identified
  cases op with
  | queue key tier snapshot feedback targets =>
    exact (queueRequest_moves True h key tier snapshot feedback none targets fun _ => rfl).2
  | queueSidePath key snapshot feedback profile =>
    unfold step queueSidePath
    dsimp only
    split
    · exact (queueRequest_moves True h key .optimizing snapshot feedback (some profile) _ nofun).2
    · exact h.identified
  | beginNext => exact beginNext_identified h.identified
  | rollback index =>
    unfold step
    dsimp only
    split
    case h_1 request hrequest => exact rollback_identified h.identified (List.mem_of_getElem? hrequest)
    case h_2 => exact h.identified
  | _ => exact absurd rfl hop

/-- Every operation keeps `Ok`. -/
theorem step_ok [TypeSizes] (s : JitSystem) (op : CoordinatorOp) (h : s.Ok) : (s.step op).Ok := by
  have hmoves : Moves False s (s.step op) := step_moves h op False.elim
  refine ⟨hmoves.sound, step_identified h op, fun k => ?_⟩
  rw [baseKey_congr hmoves.environment]
  exact (hmoves.steps k).ok (h.life k)

/-! ## Runs -/

variable {maxQueueLen maxAttempts : Nat} {limits : CacheLimits} {environment : ArtifactEnvironment}

/-- Nothing is resident in a new cache. -/
theorem start_life [TypeSizes] (k : FunctionKey) :
    (start maxQueueLen maxAttempts limits environment).life k = Life.initial := by
  have hempty : limits.cache.artifacts = OrdMap.empty := by cases limits <;> rfl
  refine Life.ext rfl (funext fun t => by cases t <;> rfl) rfl rfl rfl rfl rfl rfl rfl rfl
    (funext fun key => ?_) rfl
  show (if key.function = k then limits.cache.lookup key else none) = none
  rw [CodeCache.lookup, hempty]
  exact ite_self none

theorem start_ok [TypeSizes] : (start maxQueueLen maxAttempts limits environment).Ok := by
  refine ⟨(CacheSystem.initial_ok limits).sound, ⟨nofun, nofun, nofun⟩, fun k => ?_⟩
  rw [start_life]
  exact Life.initial_ok

/-- What lives keep holds in every reachable state. -/
theorem reachable_ok [TypeSizes] (maxQueueLen maxAttempts : Nat) (limits : CacheLimits)
    (environment : ArtifactEnvironment) (ops : List CoordinatorOp) :
    (runs step (start maxQueueLen maxAttempts limits environment) ops).Ok :=
  runs_inv step_ok start_ok ops

/-- The system refines the lives of its functions: from any reachable state a run
takes every function through steps of its life, careful ones if the run leaves
pending tiers alone. -/
theorem runs_refine_lives [TypeSizes] (maxQueueLen maxAttempts : Nat) (limits : CacheLimits)
    (environment : ArtifactEnvironment) (before after : List CoordinatorOp) (k : FunctionKey) :
    let s := runs step (start maxQueueLen maxAttempts limits environment) before
    Life.Steps k (s.coordinator.baseKey k) (Meets step Undisturbed s after) (s.life k)
      ((runs step s after).life k) := by
  have hrun : ∀ {careful : Prop} (ops : List CoordinatorOp) {s : JitSystem}, s.Ok →
      (careful → Meets step Undisturbed s ops) → Moves careful s (runs step s ops) := by
    intro careful ops
    induction ops with
    | nil => exact fun hok _ => ⟨hok.sound, rfl, fun k => .refl⟩
    | cons op ops ih =>
      intro s hok hmeets
      have hstep := step_moves hok op fun h => (hmeets h).1
      have hrest := ih (step_ok s op hok) fun h => (hmeets h).2
      refine ⟨hrest.sound, hrest.environment.trans hstep.environment, fun k => ?_⟩
      exact (hstep.steps k).trans
        (Coordinator.baseKey_congr hstep.environment k ▸ hrest.steps k)
  exact (hrun after (reachable_ok _ _ _ _ before) id).steps k

/-- A completion changes the coordinator only as the answer to a request that was
handed out in the run, and no other request has its attempt id. -/
theorem complete_answers_dispatched [TypeSizes] (maxQueueLen maxAttempts : Nat) (limits : CacheLimits)
    (environment : ArtifactEnvironment) (ops : List CoordinatorOp) (completion : CompileCompletion) :
    let s := runs step (start maxQueueLen maxAttempts limits environment) ops
    (s.coordinator.complete completion).1 = s.coordinator ∨
      completion.artifactKey.function = completion.key ∧ ∃ r ∈ s.dispatched,
        (r.attemptId, r.tier, r.artifactKey) =
          (completion.attemptId, completion.requestedTier, completion.artifactKey) ∧
        ∀ r' ∈ s.coordinator.queue ++ s.dispatched, r'.attemptId = r.attemptId →
          r'.flight = r.flight := by
  intro s
  have hok : s.Ok := reachable_ok _ _ _ _ ops
  unfold complete
  split
  · exact .inl rfl
  case h_2 flight hflight =>
  split
  case isFalse => exact .inl rfl
  case isTrue hexpected =>
  simp only [isExpected, Bool.and_eq_true, decide_eq_true_eq] at hexpected
  obtain ⟨⟨⟨-, hid⟩, htier⟩, hkey⟩ := hexpected
  have hfor := (hok.life completion.key).flight flight hflight
  obtain ⟨r, hr, rfl⟩ := hok.identified.inFlight completion.key flight hflight
  refine .inr ⟨hkey ▸ hfor.function_eq, r, hr, by rw [← hid, ← htier, ← hkey]; rfl, fun r' hr' => ?_⟩
  exact hok.identified.unique r' hr' r (List.mem_append_right _ hr)

/-! ## Careful runs -/

/-- In a run that leaves pending tiers alone, every life stays booked. -/
theorem reachable_booked [TypeSizes] {ops : List CoordinatorOp}
    (hops : Meets step Undisturbed (start maxQueueLen maxAttempts limits environment) ops)
    (k : FunctionKey) :
    ((runs step (start maxQueueLen maxAttempts limits environment) ops).life k).Booked := by
  refine (runs_inv_of_meets (P := fun s => s.Ok ∧ ∀ k, (s.life k).Booked) ?_ ⟨start_ok, ?_⟩ hops).2 k
  · intro s op hop ⟨hok, hbooked⟩
    have hmoves : Moves True s (s.step op) := step_moves hok op fun _ => hop
    exact ⟨step_ok s op hok, fun k => (hmoves.steps k).booked (hok.life k) (hbooked k)⟩
  · intro k
    rw [start_life]
    exact Life.initial_booked

end JitSystem

/-! ## A sample system

The concrete runs of this development compile an empty body for a few functions
in a system whose types are one byte each. -/

namespace Sample

scoped instance sampleSizes : TypeSizes := ⟨1, 1, 1, 1, 1, 1, 1, 1⟩

end Sample

def sampleVerifyLimits : VerifyLimits where
  maxSnapshotBytes := 1000
  maxInstructions := 100
  maxBasicBlocks := 100
  maxMetadataBytes := 1000
  maxWorkUnits := 1000

/-- A body that returns at once. -/
def emptyBody : CompileSnapshot := sampleSnapshot [41] 0 0 0

def emptyFunction : VerifiedSnapshot :=
  .ofVerify (show (verify sampleTable 100 emptyBody sampleVerifyLimits).isOk = true by decide +kernel)

def sampleEnvironment : ArtifactEnvironment := ⟨1, 0, 0, 0, 0⟩

/-- Feedback of some epoch that confirms every observation. -/
def sampleFeedback (epoch : Nat) : FeedbackSnapshot :=
  { FeedbackSnapshot.empty epoch with containsStableObservation := fun _ _ _ => true }

def sampleKey (k : FunctionKey) (tier : Tier) (specialization : BitVec 64) : ArtifactKey :=
  Coordinator.artifactKeyFor sampleEnvironment k tier emptyBody specialization

/-- An artifact of some size with some dependencies. -/
def sampleArtifact (key : ArtifactKey) (code : Nat) (dependencies : List FunctionKey) :
    CompiledArtifact where
  key := key
  code := code
  relocations := []
  unwindMetadata := none
  stackMaps := []
  frameStates := []
  dependencies := dependencies
  benefit := 0
  optimized := none
  inlineSnapshot := none
  publishes := true

/-- Ask for a tier of a function. -/
def sampleQueue (k : FunctionKey) (tier : Tier) (epoch : Nat) : CoordinatorOp :=
  .queue k tier emptyFunction (sampleFeedback epoch) ⟨[], none⟩

/-- Complete an attempt with an artifact. -/
def sampleComplete (attemptId : Nat) (artifact : CompiledArtifact) : CoordinatorOp :=
  .complete ⟨artifact.key.function, artifact.key.tier, artifact.key, attemptId, .ok artifact⟩

/-- Ask for a tier, hand the request out and complete it. -/
def sampleCompile (attemptId : Nat) (artifact : CompiledArtifact) : List CoordinatorOp :=
  [sampleQueue artifact.key.function artifact.key.tier 0, .beginNext, sampleComplete attemptId artifact]

end QuickJit
