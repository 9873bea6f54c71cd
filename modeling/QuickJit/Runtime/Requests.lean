import QuickJit.Runtime.Refines

/-
  Requests refine the life of each function.

  A request that passes its checks first makes its generation the current one.
  It is then refused because the queue is full or the attempt ids have run out,
  or it is accepted: it stands at the end of the queue under a new attempt id,
  and the function it asks for sees the step `Life.Step.accept`.
-/

namespace QuickJit

namespace Coordinator

variable {c c' : Coordinator} {pins : List Address} {careful : Prop} {key k : FunctionKey}
  {tier : Tier} {snapshot : VerifiedSnapshot} {feedback : FeedbackSnapshot}
  {sidePath : Option SidePathProfile} {targets : CallTargets} {r : CompileRequest}

/-! ## The checks -/

/-- What a request that passes the checks can rely on. -/
structure Admissible (c : Coordinator) (key : FunctionKey) (tier : Tier)
    (sidePath : Option SidePathProfile) : Prop where
  shutdown : c.shutdown = false
  generation : ∀ g, c.currentGenerations key.id = some g → g ≤ key.generation
  retired : (c.record key).retired = false
  idle : (c.record key).isActive = false
  baseline : tier = .baseline → ∀ t, c.installedKeys key t = none
  optimizing : tier = .optimizing → sidePath = none → c.installedKeys key .optimizing = none
  state : ((c.record key).tier tier).state ≠ .blacklisted

theorem checkState_ne {clock : Nat} {side : Bool} {state : CompileState}
    (h : checkState clock side state = .ok ()) : state ≠ .blacklisted := by
  rintro rfl
  cases h

theorem checkRequest_eq_ok {snapshot : CompileSnapshot}
    (h : c.checkRequest key tier snapshot sidePath = .ok ()) : c.Admissible key tier sidePath := by
  unfold checkRequest at h
  dsimp only at h
  split at h
  · cases h
  rename_i hshutdown
  split at h
  · cases h
  split at h
  · cases h
  rename_i hgeneration
  split at h
  · cases h
  rename_i hretired
  split at h
  · cases h
  rename_i hidle
  split at h
  · cases h
  rename_i hbaseline
  split at h
  · cases h
  rename_i hoptimizing
  cases hstate : checkState c.clock sidePath.isSome ((c.record key).tier tier).state with
  | error e =>
    rw [hstate] at h
    cases h
  | ok u =>
  refine ⟨by simpa using hshutdown, fun g hg => ?_, by simpa using hretired, by simpa using hidle,
    fun ht t => ?_, fun ht hside => ?_, checkState_ne hstate⟩
  · simp only [hg, Option.any_some, decide_eq_true_eq] at hgeneration
    omega
  · simp only [ht, true_and, Bool.or_eq_true, not_or, Bool.not_eq_true, Option.isSome_eq_false_iff,
      Option.isNone_iff_eq_none] at hbaseline
    cases t
    · exact hbaseline.1
    · exact hbaseline.2
  · simp only [ht, hside, true_and, Option.isNone_none, Bool.and_true, Bool.or_eq_true, not_or,
      Bool.not_eq_true, Option.isSome_eq_false_iff, Option.isNone_iff_eq_none] at hoptimizing
    exact hoptimizing.2

/-- A baseline inlines no frames. -/
theorem inlineKey_baseline (artifactKey : ArtifactKey) :
    inlineKey .baseline sidePath targets artifactKey = artifactKey := by
  unfold inlineKey
  split
  · exact if_neg fun h => nomatch h.1
  · rfl

/-- Inlining changes the specialization of a key only. -/
theorem inlineKey_eq (tier : Tier) (sidePath : Option SidePathProfile) (targets : CallTargets)
    (artifactKey : ArtifactKey) :
    ∃ fingerprint, inlineKey tier sidePath targets artifactKey =
      { artifactKey with specializationFingerprint := fingerprint } := by
  unfold inlineKey
  split
  · split
    · exact ⟨_, rfl⟩
    · exact ⟨_, rfl⟩
  · exact ⟨_, rfl⟩

/-- The key of a request is one its function has for the tier. -/
theorem artifactKeyFor_keyFor (hside : tier = .baseline → sidePath = none) :
    Life.KeyFor key (c.baseKey key) (inlineKey tier sidePath targets
      (artifactKeyFor c.environment key tier snapshot.snapshot
        (specialization key tier snapshot.toVerifiedFunction feedback sidePath))) tier := by
  obtain ⟨hrevision, hopcodes⟩ := snapshot.compatible
  cases tier with
  | baseline =>
    rw [inlineKey_baseline, hside rfl]
    unfold artifactKeyFor baseKey
    rw [hrevision, hopcodes]
    exact ⟨rfl, rfl, rfl, fun _ => rfl⟩
  | optimizing =>
    obtain ⟨fingerprint, heq⟩ := inlineKey_eq .optimizing sidePath targets
      (artifactKeyFor c.environment key .optimizing snapshot.snapshot
        (specialization key .optimizing snapshot.toVerifiedFunction feedback sidePath))
    rw [heq]
    refine ⟨rfl, rfl, ?_, nofun⟩
    unfold artifactKeyFor baseKey
    rw [hrevision, hopcodes]
    rfl

/-! ## The generation of a request -/

/-- What neither retirement nor the watermark touches. -/
theorem advanceGeneration_fixed {α : Type*} (f : Coordinator → α)
    (hretire : ∀ c key, f (retireState c key) = f c)
    (hwatermark : ∀ c generations, f { c with currentGenerations := generations } = f c)
    (c : Coordinator) (key : FunctionKey) : f (c.advanceGeneration key) = f c := by
  unfold advanceGeneration
  split
  · exact (hwatermark ..).trans (foldl_retireState_fixed f hretire _ c)
  · rfl

theorem advanceGeneration_current (h : ∀ g, c.currentGenerations key.id = some g → g ≤ key.generation) :
    (c.advanceGeneration key).currentGenerations key.id = some key.generation := by
  unfold advanceGeneration
  split
  case isTrue => exact Function.update_self ..
  case isFalse hnot =>
    cases hg : c.currentGenerations key.id with
    | none => simp [hg] at hnot
    | some g =>
      simp only [hg, Option.all_some, decide_eq_true_eq] at hnot
      have hle := h g hg
      rw [Nat.le_antisymm hle (Nat.le_of_not_lt hnot)]

theorem noteEpoch_eq (c : Coordinator) (key : FunctionKey) (tier : Tier) (epoch : Nat)
    (sidePath : Option SidePathProfile) :
    ∃ epochs, c.noteEpoch key tier epoch sidePath = { c with latestFeedbackEpochs := epochs } ∧
      (∀ k, k ≠ key → epochs k = c.latestFeedbackEpochs k) ∧
        (¬ (tier = .optimizing ∧ sidePath.isNone) → epochs = c.latestFeedbackEpochs) := by
  unfold noteEpoch
  split
  case isTrue hprimary =>
    exact ⟨_, rfl, fun k hk => Function.update_of_ne hk .., fun hnot => absurd hprimary hnot⟩
  case isFalse => exact ⟨_, rfl, fun _ _ => rfl, fun _ => rfl⟩

/-- What is recorded for a request before it stands in the queue. -/
theorem planned_eq (hs : c.cache.Sound pins []) (attemptId : Nat) (key : FunctionKey) (tier : Tier)
    (epoch : Nat) (sidePath : Option SidePathProfile) (targets : CallTargets) :
    ∃ epochs cache, (noteEpoch { c with nextAttemptId := attemptId } key tier epoch
        sidePath).planTargets sidePath targets =
      { c with nextAttemptId := attemptId, latestFeedbackEpochs := epochs, cache } ∧
      cache.Sound pins [] ∧ (∀ key, cache.lookup key = c.cache.lookup key) ∧
      (∀ k, k ≠ key → epochs k = c.latestFeedbackEpochs k) ∧
        (¬ (tier = .optimizing ∧ sidePath.isNone) → epochs = c.latestFeedbackEpochs) := by
  obtain ⟨epochs, hnote, hepochs⟩ := noteEpoch_eq { c with nextAttemptId := attemptId } key tier epoch
    sidePath
  obtain ⟨cache, hplan, hsound, hlookup⟩ := planTargets_spec
    (c := { c with nextAttemptId := attemptId, latestFeedbackEpochs := epochs }) hs sidePath targets
  exact ⟨epochs, cache, hnote ▸ hplan, hsound, hlookup, hepochs⟩

/-! ## Accepted requests -/

/-- `c'` is `c` after it accepted the request `r`. -/
structure Accepted (careful : Prop) (c : Coordinator) (pins : List Address) (r : CompileRequest)
    (c' : Coordinator) : Prop where
  sound : c'.cache.Sound pins []
  environment : c'.environment = c.environment
  attemptId_eq : r.attemptId = c.nextAttemptId + 1
  nextAttemptId_eq : c'.nextAttemptId = r.attemptId
  queue_eq : c'.queue = (c.advanceGeneration r.key).queue ++ [r]
  inFlight_eq : c'.inFlight = (c.advanceGeneration r.key).inFlight
  generations_eq : c'.currentGenerations = (c.advanceGeneration r.key).currentGenerations
  dependencies_eq : c'.dependencies = c.dependencies
  current : c'.currentGenerations r.key.id = some r.key.generation
  self : ∀ accepted, Life.Steps r.key (c.baseKey r.key) careful (c.life accepted r.key)
    (c'.life (Function.update accepted r.tier (some r)) r.key)
  other : ∀ accepted k, k ≠ r.key →
    Life.Steps k (c.baseKey k) careful (c.life accepted k) (c'.life accepted k)

theorem filter_append_ne {queue : List CompileRequest} (hk : k ≠ r.key) :
    (queue ++ [r]).filter (fun r => r.key = k) = queue.filter fun r => r.key = k := by
  rw [List.filter_append, List.filter_cons_of_neg (by simpa using Ne.symm hk), List.filter_nil,
    List.append_nil]

theorem filter_append_self {queue : List CompileRequest} :
    (queue ++ [r]).filter (fun r' => r'.key = r.key) =
      queue.filter (fun r' => r'.key = r.key) ++ [r] := by
  rw [List.filter_append, List.filter_cons_of_pos (by simp), List.filter_nil]

/-- Putting a request into the queue of a coordinator whose current generation
it is. -/
theorem enqueue_accepted (hs : c.cache.Sound pins []) (h : c.Admissible r.key r.tier r.sidePathProfile)
    (hfor : Life.KeyFor r.key (c.baseKey r.key) r.artifactKey r.tier)
    (hid : r.attemptId = c.nextAttemptId + 1) {epochs : FunctionKey → Option Nat} {cache : CodeCache}
    (hepochs : ∀ k, k ≠ r.key → epochs k = c.latestFeedbackEpochs k)
    (hepoch : Life.isPrimary r = false → epochs = c.latestFeedbackEpochs)
    (hsound : cache.Sound pins [])
    (hlookup : ∀ key, cache.lookup key = (c.advanceGeneration r.key).cache.lookup key) :
    Accepted careful c pins r (enqueue { c.advanceGeneration r.key with
      nextAttemptId := r.attemptId, latestFeedbackEpochs := epochs, cache := cache } r) := by
  have hadvance : Evolves careful c pins (c.advanceGeneration r.key) pins :=
    advanceGeneration_evolves hs r.key
  have hcurrent := advanceGeneration_current h.generation
  have hlatest := advanceGeneration_fixed Coordinator.latestFeedbackEpochs (fun _ _ => rfl)
    (fun _ _ => rfl) c r.key
  set c₁ := c.advanceGeneration r.key with hc₁
  let c₂ := { c₁ with nextAttemptId := r.attemptId, latestFeedbackEpochs := epochs, cache := cache }
  constructor
  case sound => exact hsound
  case environment => exact hadvance.environment
  case attemptId_eq => exact hid
  case nextAttemptId_eq => rfl
  case queue_eq => rfl
  case inFlight_eq => rfl
  case generations_eq => rfl
  case dependencies_eq =>
    exact advanceGeneration_fixed Coordinator.dependencies (fun _ _ => rfl) (fun _ _ => rfl) c r.key
  case current => exact hcurrent
  case other =>
    intro accepted k hk
    have hsame : (c₂.enqueue r).life accepted k = c₁.life accepted k :=
      life_frame (OrdMap.get?_insert_ne _ _ (Ne.symm hk)) rfl rfl (filter_append_ne hk) rfl rfl
        ((hepochs k hk).trans (congrFun hlatest k).symm) fun key _ => hlookup key
    rw [hsame]
    exact hadvance.steps accepted k
  case self =>
    intro accepted
    refine (hadvance.steps accepted r.key).tail ?_
    have hself : c₁.life accepted r.key = _ := advanceGeneration_life_self hs
    have hstate : ∀ t, (c₁.life accepted r.key).state t = ((c.record r.key).tier t).state := fun t =>
      congrArg (fun l => Life.state l t) hself
    have hinstalled : (c₁.life accepted r.key).installed = c.installedKeys r.key :=
      congrArg Life.installed hself
    have hlife : (c₂.enqueue r).life (Function.update accepted r.tier (some r)) r.key = _ :=
      life_update _ fun f => f.setState r.tier (.queued r.tier)
    rw [withRecord_setState] at hlife
    refine (congrArg (Life.Step _ _ _ _) (hlife.trans ?_)).mpr (.accept
      (l := c₁.life accepted r.key) r (epochs r.key) rfl hfor ⟨hcurrent, ?_, ?_⟩ ?_ ?_ ?_ ?_ ?_)
    case refine_1 =>
      refine Life.ext rfl rfl rfl rfl rfl rfl filter_append_self rfl rfl rfl (funext fun key => ?_) rfl
      exact ite_congr rfl (fun _ => hlookup key) fun _ => rfl
    · exact (congrArg Life.retired hself).trans h.retired
    · exact (congrArg Life.shutdown hself).trans h.shutdown
    · intro t
      rw [hstate]
      have hidle := Bool.or_eq_false_iff.mp h.idle
      cases t
      · exact hidle.1
      · exact hidle.2
    · rw [hstate]
      exact h.state
    · rw [hinstalled]
      exact h.baseline
    · intro hprimary
      rw [hinstalled]
      simp only [Life.isPrimary, Bool.and_eq_true, decide_eq_true_eq, Option.isNone_iff_eq_none]
        at hprimary
      exact h.optimizing hprimary.1 hprimary.2
    · intro hprimary
      exact (congrFun (hepoch hprimary) r.key).trans (congrFun hlatest r.key).symm

/-- A request is refused or accepted. -/
theorem queueRequest_spec (careful : Prop) (hs : c.cache.Sound pins []) (key : FunctionKey)
    (tier : Tier) (snapshot : VerifiedSnapshot) (feedback : FeedbackSnapshot)
    (sidePath : Option SidePathProfile) (targets : CallTargets)
    (hside : tier = .baseline → sidePath = none) :
    (∃ e, (c.queueRequest key tier snapshot feedback sidePath targets).2 = .error e ∧
      Evolves careful c pins (c.queueRequest key tier snapshot feedback sidePath targets).1 pins) ∨
    ((c.queueRequest key tier snapshot feedback sidePath targets).2 = .ok () ∧
      c.Admissible key tier sidePath ∧ ∃ r : CompileRequest, r.key = key ∧ r.tier = tier ∧
        Accepted careful c pins r
          (c.queueRequest key tier snapshot feedback sidePath targets).1) := by
  unfold queueRequest
  split
  case h_1 e _ => exact .inl ⟨e, rfl, .refl hs⟩
  case h_2 hcheck =>
  have hadmissible := checkRequest_eq_ok hcheck
  have hadvance : Evolves careful c pins (c.advanceGeneration key) pins :=
    advanceGeneration_evolves hs key
  have hnext := advanceGeneration_fixed Coordinator.nextAttemptId (fun _ _ => rfl) (fun _ _ => rfl)
    c key
  dsimp only
  split
  case isTrue => exact .inl ⟨_, rfl, hadvance⟩
  case isFalse =>
  split
  case h_1 => exact .inl ⟨_, rfl, hadvance⟩
  case h_2 attemptId hid =>
  refine .inr ⟨rfl, hadmissible, ?_⟩
  obtain ⟨epochs, cache, hplan, hsound, hlookup, hepochs, hepoch⟩ :=
    planned_eq hadvance.sound attemptId key tier feedback.epoch sidePath targets
  have hlatest := advanceGeneration_fixed Coordinator.latestFeedbackEpochs (fun _ _ => rfl)
    (fun _ _ => rfl) c key
  rw [hplan]
  let r : CompileRequest := {
    key, tier, snapshot, attemptId, feedback, feedbackEpoch := feedback.epoch
    sidePathProfile := sidePath
    artifactKey := inlineKey tier sidePath targets (artifactKeyFor c.environment key tier
      snapshot.snapshot (specialization key tier snapshot.toVerifiedFunction feedback sidePath)) }
  refine ⟨r, rfl, rfl, enqueue_accepted (r := r) hs hadmissible (artifactKeyFor_keyFor hside) ?_
    (fun k hk => ?_) (fun hprimary => ?_) hsound hlookup⟩
  · rw [← hnext]
    exact (checkedAdd_eq_some.mp hid).2.symm
  · exact (hepochs k hk).trans (congrFun hlatest k)
  · refine (hepoch fun h => ?_).trans hlatest
    simp [r, Life.isPrimary, h.1, h.2] at hprimary

end Coordinator

end QuickJit
