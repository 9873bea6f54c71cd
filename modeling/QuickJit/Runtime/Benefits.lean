import QuickJit.Runtime.CacheMemo
import QuickJit.Runtime.SystemRuns

/-
  Crediting benefits with and without memos.

  Crediting a benefit goes through two memos: the coordinator keeps the last
  installed key it credited and the cache an `Arc` of the last artifact.
  `withoutMemos` is a system that has given both up, and `plainStep` the step of
  a system that looks the installed keys and then the resident artifacts up
  every time. Giving the memos up commutes with every operation
  (`step_withoutMemos`), so a run without memos is the run with memos seen
  through `withoutMemos`: the same replies and the same cells, down to the
  benefit and the last use of each.

  The coordinator's memo is an entry of the installed keys as long as it is
  there (`Remembers`): every operation that writes that table clears it.
-/

namespace QuickJit

namespace Coordinator

open CodeCache

variable {c c' c'' : Coordinator} {pins : List Address}

/-- The coordinator and its cache without their memos. -/
def withoutMemos (c : Coordinator) : Coordinator :=
  { c with lastBenefitTarget := none, cache := c.cache.withoutMemo }

/-- `record_benefit` of a coordinator without memos. -/
def creditInstalled (c : Coordinator) (key : FunctionKey) (tier : Tier) (savedNs : Nat) :
    Coordinator × Bool :=
  match c.installedKeys key tier with
  | none => (c, false)
  | some artifact =>
    let (cache, result) := c.cache.creditResident artifact savedNs
    ({ c with cache }, result.isOk)

/-- The memo is an entry of the installed keys. -/
def Remembers (c : Coordinator) : Prop :=
  ∀ {key tier artifact}, c.lastBenefitTarget = some (key, tier, artifact) →
    c.installedKeys key tier = some artifact

/-! ## The memo -/

/-- `c'` has no memo, or `c'` has the memo and the installed keys of `c`. -/
def KeepsMemo (c c' : Coordinator) : Prop :=
  c'.lastBenefitTarget = none ∨
    c'.lastBenefitTarget = c.lastBenefitTarget ∧ c'.installedKeys = c.installedKeys

theorem KeepsMemo.refl (c : Coordinator) : c.KeepsMemo c := .inr ⟨rfl, rfl⟩

theorem KeepsMemo.trans (h : c.KeepsMemo c') (h' : c'.KeepsMemo c'') : c.KeepsMemo c'' := by
  rcases h' with hnone | ⟨htarget, hkeys⟩
  · exact .inl hnone
  rcases h with hnone | ⟨htarget', hkeys'⟩
  · exact .inl (htarget.trans hnone)
  · exact .inr ⟨htarget.trans htarget', hkeys.trans hkeys'⟩

theorem KeepsMemo.remembers (h : c.KeepsMemo c') (hc : c.Remembers) : c'.Remembers := by
  intro key tier artifact hmemo
  rcases h with hnone | ⟨htarget, hkeys⟩
  · cases hnone.symm.trans hmemo
  · rw [hkeys]
    exact hc (htarget ▸ hmemo)

/-- The memo names what the table names. -/
theorem Remembers.recordBenefit_eq (hc : c.Remembers) (key : FunctionKey) (tier : Tier)
    (savedNs : Nat) :
    c.recordBenefit key tier savedNs = match c.installedKeys key tier with
      | none => (c, false)
      | some artifact =>
        ({ c with
          cache := (c.cache.recordBenefit artifact savedNs).1
          lastBenefitTarget := some (key, tier, artifact) },
          (c.cache.recordBenefit artifact savedNs).2.isOk) := by
  unfold Coordinator.recordBenefit
  rcases hmemo : c.lastBenefitTarget with _ | ⟨function, cachedTier, artifact⟩
  · rfl
  · dsimp only
    by_cases heq : function = key ∧ cachedTier = tier
    · obtain ⟨rfl, rfl⟩ := heq
      rw [if_pos ⟨rfl, rfl⟩, hc hmemo]
    · cases c.installedKeys key tier <;> simp only [if_neg heq]

theorem Remembers.recordBenefit (hc : c.Remembers) (key : FunctionKey) (tier : Tier)
    (savedNs : Nat) : (c.recordBenefit key tier savedNs).1.Remembers := by
  rw [hc.recordBenefit_eq]
  split
  · exact hc
  case h_2 artifact hinstalled =>
    intro key' tier' artifact' hmemo
    cases hmemo
    exact hinstalled

/-- Through the memos or not, the same artifact is credited. -/
theorem Remembers.creditInstalled_withoutMemos (hc : c.Remembers) (hs : c.cache.Sound pins [])
    (key : FunctionKey) (tier : Tier) (savedNs : Nat) :
    c.withoutMemos.creditInstalled key tier savedNs =
      ((c.recordBenefit key tier savedNs).1.withoutMemos, (c.recordBenefit key tier savedNs).2) := by
  rw [hc.recordBenefit_eq]
  unfold creditInstalled
  rw [show c.withoutMemos.installedKeys = c.installedKeys from rfl]
  split
  · rfl
  case h_2 artifact _ =>
    rw [show c.withoutMemos.cache = c.cache.withoutMemo from rfl,
      hs.withoutMemo_recordBenefit artifact savedNs]
    rfl

/-! ## Retirement -/

theorem retireState_withoutMemos (c : Coordinator) (key : FunctionKey) :
    c.withoutMemos.retireState key = (c.retireState key).withoutMemos := by
  have hcache := Sound.withoutMemo_invalidateDeferred c.cache key
  unfold retireState withoutMemos
  dsimp only [update]
  rw [hcache]
  rfl

theorem foldl_retireState_withoutMemos (keys : List FunctionKey) (c : Coordinator) :
    keys.foldl retireState c.withoutMemos = (keys.foldl retireState c).withoutMemos :=
  List.foldl_hom withoutMemos retireState_withoutMemos

theorem advanceGeneration_withoutMemos (c : Coordinator) (key : FunctionKey) :
    c.withoutMemos.advanceGeneration key = (c.advanceGeneration key).withoutMemos := by
  unfold advanceGeneration retireOlderGenerations
  rw [show c.withoutMemos.currentGenerations = c.currentGenerations from rfl,
    show c.withoutMemos.functions = c.functions from rfl]
  split
  · rw [foldl_retireState_withoutMemos]
    rfl
  · rfl

theorem retire_withoutMemos (c : Coordinator) (key : FunctionKey) :
    c.withoutMemos.retire key = (c.retire key).withoutMemos := by
  rw [retire_eq, retire_eq, advanceGeneration_withoutMemos]
  exact foldl_retireState_withoutMemos _ { c.advanceGeneration key with
    dependencies := ((c.advanceGeneration key).dependencies.invalidate (.function key)).1 }

/-- What shutting down does last. -/
def collected (c : Coordinator) : Coordinator :=
  { c with cache := c.cache.collectInvalidated.1 }

theorem collected_withoutMemos (hs : c.cache.Sound pins []) :
    c.withoutMemos.collected = c.collected.withoutMemos := by
  have hcollect := hs.withoutMemo_collectAndSignal usizeMax
  unfold collected collectInvalidated
  dsimp only
  rw [show c.withoutMemos.cache = c.cache.withoutMemo from rfl, hcollect]
  rfl

theorem shutDown_eq (c : Coordinator) : c.shutDown = if c.shutdown then c
    else (c.functions.keys.foldl retireState c.cleared).collected := rfl

section

variable (hs : c.cache.Sound pins [])

include hs

theorem shutDown_withoutMemos :
    c.withoutMemos.shutDown = c.shutDown.withoutMemos := by
  rw [shutDown_eq, shutDown_eq, show c.withoutMemos.shutdown = c.shutdown from rfl]
  split
  · rfl
  · have hretired : Evolves False c.cleared pins (c.functions.keys.foldl retireState c.cleared) pins :=
      foldl_retireState_evolves _ hs
    rw [← collected_withoutMemos hretired.sound]
    exact congrArg collected (foldl_retireState_withoutMemos c.functions.keys c.cleared)

/-! ## Use of installed code -/

theorem pin_sound (key : FunctionKey) (tier : Tier) :
    (c.pin key tier).1.cache.Sound ((c.pin key tier).2.toList ++ pins) [] := by
  obtain ⟨cache, heq, hsound, -⟩ := pin_spec hs key tier
  rw [heq]
  exact hsound

theorem pin_withoutMemos (key : FunctionKey) (tier : Tier) :
    c.withoutMemos.pin key tier = ((c.pin key tier).1.withoutMemos, (c.pin key tier).2) := by
  unfold pin
  rw [show c.withoutMemos.installedKeys = c.installedKeys from rfl]
  cases c.installedKeys key tier with
  | none => rfl
  | some artifactKey =>
    have hcommutes := hs.withoutMemo_pin artifactKey
    have hpinned := hs.pin artifactKey
    dsimp only
    rw [show c.withoutMemos.cache = c.cache.withoutMemo from rfl, hcommutes]
    rcases hpin : c.cache.pin artifactKey with ⟨cache, _ | a⟩
    · rfl
    · rw [hpin] at hpinned
      dsimp only
      rw [show c.withoutMemos.latestFeedbackEpochs = c.latestFeedbackEpochs from rfl,
        show (cache.withoutMemo.cells a).artifact = (cache.cells a).artifact from rfl]
      split
      · rw [hpinned.withoutMemo_dropPin List.mem_cons_self]
        rfl
      · rfl

theorem dropPin_withoutMemos {a : Address} (ha : a ∈ pins) :
    c.withoutMemos.dropPin a = (c.dropPin a).withoutMemos := by
  have hdrop := hs.withoutMemo_dropPin ha
  unfold dropPin
  rw [show c.withoutMemos.cache = c.cache.withoutMemo from rfl, hdrop]
  rfl

theorem lookUp_withoutMemos (target : FunctionKey × Tier) :
    c.withoutMemos.lookUp target = (c.lookUp target).withoutMemos := by
  have hpinned := pin_sound hs target.1 target.2
  unfold lookUp
  rw [pin_withoutMemos hs]
  rcases hpin : c.pin target.1 target.2 with ⟨c', _ | a⟩
  · rfl
  · rw [hpin] at hpinned
    exact dropPin_withoutMemos hpinned List.mem_cons_self

end

theorem foldl_lookUp_withoutMemos :
    ∀ (lookups : List (FunctionKey × Tier)) {c : Coordinator}, c.cache.Sound pins [] →
      lookups.foldl lookUp c.withoutMemos = (lookups.foldl lookUp c).withoutMemos
  | [], _, _ => rfl
  | target :: lookups, c, hs => by
    obtain ⟨cache, heq, hsound, -⟩ := lookUp_spec hs target
    rw [List.foldl_cons, List.foldl_cons, lookUp_withoutMemos hs]
    refine foldl_lookUp_withoutMemos lookups ?_
    rw [heq]
    exact hsound

theorem planTargets_withoutMemos (hs : c.cache.Sound pins []) (sidePath : Option SidePathProfile)
    (targets : CallTargets) :
    c.withoutMemos.planTargets sidePath targets = (c.planTargets sidePath targets).withoutMemos := by
  unfold planTargets
  split
  · exact foldl_lookUp_withoutMemos targets.lookups hs
  · rfl

theorem registerCallSpecialization_withoutMemos (c : Coordinator)
    (primary : BoundedSpecializationSignature) (call : CallSpecializationKey) :
    c.withoutMemos.registerCallSpecialization primary call =
      ((c.registerCallSpecialization primary call).1.withoutMemos,
        (c.registerCallSpecialization primary call).2) := by
  unfold registerCallSpecialization
  rw [show c.withoutMemos.callSpecializationVersions = c.callSpecializationVersions from rfl,
    show c.withoutMemos.maxAttempts = c.maxAttempts from rfl]
  split
  · rfl
  · dsimp only
    split
    · split <;> rfl
    · split <;> rfl

section

variable (hs : c.cache.Sound pins [])

include hs

theorem resolveCompiledCallTarget_withoutMemos (primary : BoundedSpecializationSignature)
    (call : CallSpecializationKey) :
    c.withoutMemos.resolveCompiledCallTarget primary call =
      ((c.resolveCompiledCallTarget primary call).1.withoutMemos,
        (c.resolveCompiledCallTarget primary call).2) := by
  have hpinned := pin_sound hs call.callee .optimizing
  unfold resolveCompiledCallTarget
  rw [show c.withoutMemos.isCurrentGeneration = c.isCurrentGeneration from rfl,
    show c.withoutMemos.record = c.record from rfl, pin_withoutMemos hs]
  split
  · rfl
  split
  · rfl
  rcases hpin : c.pin call.callee .optimizing with ⟨c', _ | a⟩
  · rfl
  · rw [hpin] at hpinned
    dsimp only
    obtain ⟨versions, heq⟩ := registerCallSpecialization_eq (c := c') primary call
    rw [registerCallSpecialization_withoutMemos]
    rcases hregister : c'.registerCallSpecialization primary call with ⟨c'', e | identity⟩
    · rw [hregister] at heq
      have hc'' : c''.cache.Sound (a :: pins) [] := by
        rw [show c'' = _ from heq]
        exact hpinned
      dsimp only
      rw [dropPin_withoutMemos hc'' List.mem_cons_self]
    · rfl

theorem pollReclamation_withoutMemos (budget : Nat) :
    c.withoutMemos.pollReclamation budget =
      ((c.pollReclamation budget).1.withoutMemos, (c.pollReclamation budget).2) := by
  have hpoll := hs.withoutMemo_pollReclamationWithBudget budget
  unfold pollReclamation
  rw [show c.withoutMemos.cache = c.cache.withoutMemo from rfl, hpoll]
  rfl

/-! ## The queue -/

theorem advanceGeneration_sound (key : FunctionKey) :
    (c.advanceGeneration key).cache.Sound pins [] := by
  have hevolves : Evolves False c pins (c.advanceGeneration key) pins :=
    advanceGeneration_evolves hs key
  exact hevolves.sound

theorem queueRequest_withoutMemos (key : FunctionKey) (tier : Tier) (snapshot : VerifiedSnapshot)
    (feedback : FeedbackSnapshot) (sidePath : Option SidePathProfile) (targets : CallTargets) :
    c.withoutMemos.queueRequest key tier snapshot feedback sidePath targets =
      ((c.queueRequest key tier snapshot feedback sidePath targets).1.withoutMemos,
        (c.queueRequest key tier snapshot feedback sidePath targets).2) := by
  have hadvanced := advanceGeneration_sound hs key
  unfold queueRequest
  rw [show c.withoutMemos.checkRequest = c.checkRequest from rfl,
    show c.withoutMemos.environment = c.environment from rfl, advanceGeneration_withoutMemos]
  generalize c.advanceGeneration key = c' at hadvanced
  split
  · rfl
  dsimp only
  rw [show c'.withoutMemos.maxQueueLen = c'.maxQueueLen from rfl,
    show c'.withoutMemos.queue = c'.queue from rfl,
    show c'.withoutMemos.nextAttemptId = c'.nextAttemptId from rfl]
  split
  · rfl
  split
  · rfl
  case h_2 attemptId _ =>
    have hnoted : noteEpoch { c'.withoutMemos with nextAttemptId := attemptId } key tier
        feedback.epoch sidePath =
        (noteEpoch { c' with nextAttemptId := attemptId } key tier feedback.epoch sidePath).withoutMemos := by
      unfold noteEpoch
      split <;> rfl
    have hcache : (noteEpoch { c' with nextAttemptId := attemptId } key tier feedback.epoch
        sidePath).cache = c'.cache := by
      unfold noteEpoch
      split <;> rfl
    have hplanned := planTargets_withoutMemos (hcache.symm ▸ hadvanced) sidePath targets
    rw [← hnoted] at hplanned
    exact congrArg (fun c : Coordinator => (c.enqueue _, (Except.ok () : Except QueueError Unit)))
      hplanned

theorem queueSidePath_withoutMemos (key : FunctionKey) (snapshot : VerifiedSnapshot)
    (feedback : FeedbackSnapshot) (profile : SidePathProfile) :
    c.withoutMemos.queueSidePath key snapshot feedback profile =
      ((c.queueSidePath key snapshot feedback profile).1.withoutMemos,
        (c.queueSidePath key snapshot feedback profile).2) := by
  unfold queueSidePath
  rw [show c.withoutMemos.sidePathAllowed = c.sidePathAllowed from rfl]
  split
  · exact queueRequest_withoutMemos hs ..
  · rfl

end

theorem prioritize_withoutMemos (c : Coordinator) (key : FunctionKey) (tier : Tier) :
    c.withoutMemos.prioritize key tier =
      ((c.prioritize key tier).1.withoutMemos, (c.prioritize key tier).2) := by
  unfold prioritize
  rw [show c.withoutMemos.queue = c.queue from rfl]
  split <;> rfl

theorem beginNext_withoutMemos (c : Coordinator) :
    c.withoutMemos.beginNext = (c.beginNext.1.withoutMemos, c.beginNext.2) := by
  unfold beginNext
  rw [show c.withoutMemos.queue = c.queue from rfl,
    show c.withoutMemos.isWanted = c.isWanted from rfl]
  split <;> rfl

theorem rollback_withoutMemos (c : Coordinator) (request : CompileRequest) :
    c.withoutMemos.rollback request = (c.rollback request).withoutMemos := by
  unfold rollback
  rw [show c.withoutMemos.inFlight = c.inFlight from rfl]
  split <;> rfl

/-! ## Completions -/

theorem foldl_recordEviction_withoutMemos (evicted : List ArtifactKey) (c : Coordinator) :
    evicted.foldl recordEviction c.withoutMemos = (evicted.foldl recordEviction c).withoutMemos :=
  List.foldl_hom withoutMemos fun _ _ => rfl

theorem publish_withoutMemos [TypeSizes] (hs : c.cache.Sound pins []) (key : FunctionKey)
    (tier : Tier) (flight : InFlight) (artifact : CompiledArtifact) (staged : DependencyGraph) :
    c.withoutMemos.publish key tier flight artifact staged =
      ((c.publish key tier flight artifact staged).1.withoutMemos,
        (c.publish key tier flight artifact staged).2) := by
  have hinsert := hs.withoutMemo_insert artifact
  unfold publish
  rw [show c.withoutMemos.cache = c.cache.withoutMemo from rfl, hinsert]
  split
  · rcases c.cache.insert artifact with ⟨cache, e | evicted⟩
    · rfl
    · have hfold := foldl_recordEviction_withoutMemos evicted { c with cache, dependencies := staged }
      dsimp only
      rw [show { c.withoutMemos with cache := cache.withoutMemo, dependencies := staged } =
        withoutMemos { c with cache, dependencies := staged } from rfl, hfold]
      rfl
  · rfl

/-- The coordinator once the flight of `key` has landed with an artifact. -/
def readied (c : Coordinator) (key : FunctionKey) (tier : Tier) : Coordinator :=
  { c with
    inFlight := Function.update c.inFlight key none
    functions := c.functions.modify key fun f => f.setState tier (.ready tier) }

theorem accept_eq [TypeSizes] (c : Coordinator) (key : FunctionKey) (tier : Tier)
    (flight : InFlight) (artifact : CompiledArtifact) :
    c.accept key tier flight artifact =
      match artifact.optimized.filter fun metadata => tier = .optimizing &&
        (metadata.feedbackEpoch ≠ flight.feedbackEpoch ||
          (!flight.sidePath && c.latestFeedbackEpochs key ≠ some flight.feedbackEpoch)) with
      | some metadata =>
        ({ c with inFlight := Function.update c.inFlight key none }.recordFailure key tier,
          .feedbackEpochMismatch flight.feedbackEpoch metadata.feedbackEpoch
            (c.latestFeedbackEpochs key))
      | none =>
        match artifact.dependencies.find? fun d => !c.isCurrentGeneration d with
        | some d => ((c.readied key tier).recordFailure key tier,
            .dependencyGenerationMismatch d (c.currentGenerations d.id))
        | none =>
          match c.dependencies.install (.function key) key.generation
              (artifact.dependencies.map .function) with
          | .error _ => ((c.readied key tier).recordFailure key tier, .dependencyInstallFailed)
          | .ok staged => (c.readied key tier).publish key tier flight artifact staged := rfl

theorem accept_withoutMemos [TypeSizes] (hs : c.cache.Sound pins []) (key : FunctionKey)
    (tier : Tier) (flight : InFlight) (artifact : CompiledArtifact) :
    c.withoutMemos.accept key tier flight artifact =
      ((c.accept key tier flight artifact).1.withoutMemos,
        (c.accept key tier flight artifact).2) := by
  rw [accept_eq, accept_eq, show c.withoutMemos.latestFeedbackEpochs = c.latestFeedbackEpochs from rfl,
    show c.withoutMemos.isCurrentGeneration = c.isCurrentGeneration from rfl,
    show c.withoutMemos.dependencies = c.dependencies from rfl]
  split
  · rfl
  split
  · rfl
  split
  · rfl
  · exact publish_withoutMemos (c := c.readied key tier) hs ..

theorem complete_withoutMemos [TypeSizes] (hs : c.cache.Sound pins [])
    (completion : CompileCompletion) :
    c.withoutMemos.complete completion =
      ((c.complete completion).1.withoutMemos, (c.complete completion).2) := by
  unfold complete
  rw [show c.withoutMemos.inFlight = c.inFlight from rfl]
  split
  · rfl
  case h_2 flight _ =>
  rw [show c.withoutMemos.isExpected = c.isExpected from rfl]
  split
  · split
    · split
      · exact accept_withoutMemos hs ..
      · rfl
    · rfl
  · rfl

section

variable (c : Coordinator)

variable (key : FunctionKey)

theorem rejectTier1_withoutMemos (tier : Tier) :
    c.withoutMemos.rejectTier1 key tier = (c.rejectTier1 key tier).withoutMemos := by
  unfold rejectTier1
  rw [advanceGeneration_withoutMemos]
  rfl

/-! ## Demotion -/

theorem demoteBaselineToInterpreter_withoutMemos :
    c.withoutMemos.demoteBaselineToInterpreter key =
      ((c.demoteBaselineToInterpreter key).1.withoutMemos, (c.demoteBaselineToInterpreter key).2) := by
  unfold demoteBaselineToInterpreter
  dsimp only
  rw [show c.withoutMemos.functions = c.functions from rfl,
    show c.withoutMemos.installedKeys = c.installedKeys from rfl]
  split <;> rfl

theorem prepareBaselineDirectRefresh_withoutMemos :
    c.withoutMemos.prepareBaselineDirectRefresh key =
      ((c.prepareBaselineDirectRefresh key).1.withoutMemos,
        (c.prepareBaselineDirectRefresh key).2) := by
  unfold prepareBaselineDirectRefresh
  dsimp only
  rw [show c.withoutMemos.functions = c.functions from rfl,
    show c.withoutMemos.installedKeys = c.installedKeys from rfl]
  split <;> rfl

theorem demoteUnprofitableOptimized_withoutMemos :
    c.withoutMemos.demoteUnprofitableOptimized key =
      ((c.demoteUnprofitableOptimized key).1.withoutMemos,
        (c.demoteUnprofitableOptimized key).2) := by
  unfold demoteUnprofitableOptimized bothInstalled
  dsimp only
  rw [show c.withoutMemos.installedKeys = c.installedKeys from rfl]
  split <;> rfl

theorem prepareStablePathRecompile_withoutMemos :
    c.withoutMemos.prepareStablePathRecompile key =
      ((c.prepareStablePathRecompile key).1.withoutMemos,
        (c.prepareStablePathRecompile key).2) := by
  unfold prepareStablePathRecompile bothInstalled
  dsimp only
  rw [show c.withoutMemos.installedKeys = c.installedKeys from rfl]
  split <;> rfl

theorem recordOptimizedSideExitProfile_withoutMemos (guard : Nat) (observed : Option ObservedType) :
    c.withoutMemos.recordOptimizedSideExitProfile key guard observed =
      ((c.recordOptimizedSideExitProfile key guard observed).1.withoutMemos,
        (c.recordOptimizedSideExitProfile key guard observed).2) := by
  unfold recordOptimizedSideExitProfile
  dsimp only
  rw [show c.withoutMemos.exitDemotes = c.exitDemotes from rfl,
    show c.withoutMemos.countExit = c.countExit from rfl]
  split
  · rfl
  · split <;> rfl

end

/-! ## Every operation keeps the memo or clears it -/

theorem foldl_retireState_keepsMemo :
    ∀ (keys : List FunctionKey) (c : Coordinator), c.KeepsMemo (keys.foldl retireState c)
  | [], c => .refl c
  | _ :: keys, _ => .trans (.inl rfl) (foldl_retireState_keepsMemo keys _)

theorem advanceGeneration_keepsMemo (c : Coordinator) (key : FunctionKey) :
    c.KeepsMemo (c.advanceGeneration key) := by
  unfold advanceGeneration
  split
  · exact (foldl_retireState_keepsMemo _ c).trans (.inr ⟨rfl, rfl⟩)
  · exact .refl c

theorem retire_keepsMemo (c : Coordinator) (key : FunctionKey) : c.KeepsMemo (c.retire key) := by
  rw [retire_eq]
  refine (advanceGeneration_keepsMemo c key).trans (.trans ?_ (foldl_retireState_keepsMemo _ _))
  exact .inr ⟨rfl, rfl⟩

theorem shutDown_keepsMemo (c : Coordinator) : c.KeepsMemo c.shutDown := by
  rw [shutDown_eq]
  split
  · exact .refl c
  · have hclear : c.KeepsMemo c.cleared := .inr ⟨rfl, rfl⟩
    exact hclear.trans ((foldl_retireState_keepsMemo _ _).trans (.inr ⟨rfl, rfl⟩))

theorem queueRequest_keepsMemo (hs : c.cache.Sound pins []) (key : FunctionKey) (tier : Tier)
    (snapshot : VerifiedSnapshot) (feedback : FeedbackSnapshot) (sidePath : Option SidePathProfile)
    (targets : CallTargets) :
    c.KeepsMemo (c.queueRequest key tier snapshot feedback sidePath targets).1 := by
  have hadvanced := advanceGeneration_sound hs key
  have hkeeps := advanceGeneration_keepsMemo c key
  unfold queueRequest
  split
  · exact .refl c
  dsimp only
  generalize c.advanceGeneration key = c' at hadvanced hkeeps
  split
  · exact hkeeps
  split
  · exact hkeeps
  case h_2 attemptId _ =>
    refine hkeeps.trans ?_
    obtain ⟨epochs, cache, hplan, -⟩ :=
      planned_eq hadvanced attemptId key tier feedback.epoch sidePath targets
    rw [hplan]
    exact .inr ⟨rfl, rfl⟩

theorem publish_keepsMemo [TypeSizes] (c : Coordinator) (key : FunctionKey) (tier : Tier)
    (flight : InFlight) (artifact : CompiledArtifact) (staged : DependencyGraph) :
    c.KeepsMemo (c.publish key tier flight artifact staged).1 := by
  unfold publish
  split
  · split
    · exact .inl rfl
    · exact .inr ⟨rfl, rfl⟩
  · exact .inr ⟨rfl, rfl⟩

theorem complete_keepsMemo [TypeSizes] (c : Coordinator) (completion : CompileCompletion) :
    c.KeepsMemo (c.complete completion).1 := by
  unfold complete
  split
  · exact .refl c
  split
  · split
    · split
      · rw [accept_eq]
        split
        · exact .inr ⟨rfl, rfl⟩
        split
        · exact .inr ⟨rfl, rfl⟩
        split
        · exact .inr ⟨rfl, rfl⟩
        · refine .trans ?_ (publish_keepsMemo ..)
          exact .inr ⟨rfl, rfl⟩
      · exact .refl c
    · exact .inr ⟨rfl, rfl⟩
  · exact .refl c

end Coordinator

namespace JitSystem

open Coordinator

variable {s : JitSystem}

def withoutMemos (s : JitSystem) : JitSystem :=
  { s with coordinator := s.coordinator.withoutMemos }

/-- The step of a system without memos. -/
def plainStep [TypeSizes] (s : JitSystem) : CoordinatorOp → JitSystem
  | .recordBenefit key tier savedNs =>
    { s with coordinator := (s.coordinator.creditInstalled key tier savedNs).1 }
  | op => s.step op

/-- Giving the memos up commutes with every operation. -/
theorem step_withoutMemos [TypeSizes] (h : s.Ok) (hc : s.coordinator.Remembers)
    (op : CoordinatorOp) : s.withoutMemos.plainStep op = (s.step op).withoutMemos := by
  -- an operation's own equation, under the other fields of the system
  have hcoordinator : ∀ {c c' : Coordinator}, c = c'.withoutMemos →
      { s.withoutMemos with coordinator := c } = withoutMemos { s with coordinator := c' } :=
    fun h => h ▸ rfl
  have hpair : ∀ {α : Type} {x y : Coordinator × α}, x = (y.1.withoutMemos, y.2) →
      { s.withoutMemos with coordinator := x.1 } = withoutMemos { s with coordinator := y.1 } :=
    fun h => hcoordinator (congrArg Prod.fst h)
  cases op with
  | queue key tier snapshot feedback targets =>
    have heq := queueRequest_withoutMemos h.sound key tier snapshot feedback none targets
    show s.withoutMemos.queued key tier (s.coordinator.withoutMemos.queueRequest key tier snapshot
      feedback none targets) = _
    rw [heq]
    rfl
  | queueSidePath key snapshot feedback profile =>
    have heq := queueSidePath_withoutMemos h.sound key snapshot feedback profile
    show s.withoutMemos.queued key .optimizing (s.coordinator.withoutMemos.queueSidePath key snapshot
      feedback profile) = _
    rw [heq]
    rfl
  | prioritize key tier => exact hpair (prioritize_withoutMemos s.coordinator key tier)
  | beginNext =>
    exact congrArg (fun r : Coordinator × Option CompileRequest =>
      { s with coordinator := r.1, dispatched := r.2.toList ++ s.dispatched })
      (beginNext_withoutMemos s.coordinator)
  | rollback index =>
    unfold plainStep step
    dsimp only
    rw [show s.withoutMemos.dispatched = s.dispatched from rfl]
    split
    case h_1 request _ =>
      exact hcoordinator (rollback_withoutMemos s.coordinator request)
    case h_2 => rfl
  | complete completion => exact hpair (complete_withoutMemos h.sound completion)
  | rejectTier1 key tier => exact hcoordinator (rejectTier1_withoutMemos s.coordinator key tier)
  | retire key => exact hcoordinator (retire_withoutMemos s.coordinator key)
  | demoteBaselineToInterpreter key =>
    exact hpair (demoteBaselineToInterpreter_withoutMemos s.coordinator key)
  | prepareBaselineDirectRefresh key =>
    exact hpair (prepareBaselineDirectRefresh_withoutMemos s.coordinator key)
  | demoteUnprofitableOptimized key =>
    exact hpair (demoteUnprofitableOptimized_withoutMemos s.coordinator key)
  | prepareStablePathRecompile key =>
    exact hpair (prepareStablePathRecompile_withoutMemos s.coordinator key)
  | recordOptimizedSideExitProfile key guard observed =>
    exact hpair (recordOptimizedSideExitProfile_withoutMemos s.coordinator key guard observed)
  | recordBenefit key tier savedNs =>
    exact hpair (hc.creditInstalled_withoutMemos h.sound key tier savedNs)
  | registerCallSpecialization primary call =>
    exact hpair (registerCallSpecialization_withoutMemos s.coordinator primary call)
  | resolveCompiledCallTarget primary call =>
    exact congrArg (fun r : Coordinator × Except CompiledCallTargetError (BitVec 64 × Address) =>
      { s with coordinator := r.1, pins := targetPins r.2 ++ s.pins })
      (resolveCompiledCallTarget_withoutMemos h.sound primary call)
  | pin key tier =>
    exact congrArg (fun r : Coordinator × Option Address =>
      { s with coordinator := r.1, pins := r.2.toList ++ s.pins })
      (pin_withoutMemos h.sound key tier)
  | dropPin pin =>
    unfold plainStep step
    dsimp only
    rw [show s.withoutMemos.pins = s.pins from rfl]
    split
    case isTrue hpin =>
      exact congrArg (fun c => { s with coordinator := c, pins := s.pins.erase pin })
        (dropPin_withoutMemos h.sound hpin)
    case isFalse => rfl
  | pollReclamation budget => exact hpair (pollReclamation_withoutMemos h.sound budget)
  | advanceClock now => rfl
  | shutDown => exact hcoordinator (shutDown_withoutMemos h.sound)

/-- The coordinator's memo stays an entry of the installed keys. -/
theorem step_remembers [TypeSizes] (h : s.Ok) (hc : s.coordinator.Remembers) (op : CoordinatorOp) :
    (s.step op).coordinator.Remembers := by
  by_cases huses : usesCode op = true
  · obtain ⟨cache, versions, heq, -⟩ := step_usesCode h huses
    rw [heq]
    exact KeepsMemo.remembers (.inr ⟨rfl, rfl⟩) hc
  cases op with
  | recordBenefit key tier savedNs => exact hc.recordBenefit key tier savedNs
  | queue key tier snapshot feedback targets =>
    exact (queueRequest_keepsMemo h.sound key tier snapshot feedback none targets).remembers hc
  | queueSidePath key snapshot feedback profile =>
    unfold step queueSidePath
    dsimp only
    split
    · exact (queueRequest_keepsMemo h.sound ..).remembers hc
    · exact hc
  | prioritize key tier =>
    refine KeepsMemo.remembers ?_ hc
    unfold step prioritize
    dsimp only
    split <;> exact .inr ⟨rfl, rfl⟩
  | beginNext =>
    refine KeepsMemo.remembers ?_ hc
    unfold step beginNext
    dsimp only
    split <;> exact .inr ⟨rfl, rfl⟩
  | rollback index =>
    refine KeepsMemo.remembers ?_ hc
    unfold step rollback
    dsimp only
    split
    · dsimp only
      split <;> exact .inr ⟨rfl, rfl⟩
    · exact .refl _
  | complete completion => exact (complete_keepsMemo s.coordinator completion).remembers hc
  | rejectTier1 key tier =>
    refine ((advanceGeneration_keepsMemo s.coordinator key).trans ?_).remembers hc
    exact .inr ⟨rfl, rfl⟩
  | retire key => exact (retire_keepsMemo s.coordinator key).remembers hc
  | demoteBaselineToInterpreter key =>
    refine KeepsMemo.remembers ?_ hc
    unfold step demoteBaselineToInterpreter
    dsimp only
    split <;> exact .inl rfl
  | prepareBaselineDirectRefresh key =>
    refine KeepsMemo.remembers ?_ hc
    unfold step prepareBaselineDirectRefresh
    dsimp only
    split <;> exact .inl rfl
  | demoteUnprofitableOptimized key =>
    refine KeepsMemo.remembers ?_ hc
    unfold step demoteUnprofitableOptimized
    dsimp only
    split <;> exact .inl rfl
  | prepareStablePathRecompile key =>
    refine KeepsMemo.remembers ?_ hc
    unfold step prepareStablePathRecompile
    dsimp only
    split <;> exact .inl rfl
  | recordOptimizedSideExitProfile key guard observed =>
    refine KeepsMemo.remembers ?_ hc
    unfold step recordOptimizedSideExitProfile
    dsimp only
    split
    · exact .inl rfl
    · split <;> exact .inr ⟨rfl, rfl⟩
  | registerCallSpecialization | resolveCompiledCallTarget | pin | dropPin =>
    exact absurd rfl huses
  | pollReclamation budget => exact KeepsMemo.remembers (.inr ⟨rfl, rfl⟩) hc
  | advanceClock now => exact KeepsMemo.remembers (.inr ⟨rfl, rfl⟩) hc
  | shutDown => exact (shutDown_keepsMemo s.coordinator).remembers hc

/-! ## Runs -/

variable {maxQueueLen maxAttempts : Nat} {limits : CacheLimits} {environment : ArtifactEnvironment}

theorem reachable_remembers [TypeSizes] (ops : List CoordinatorOp) :
    (runs step (start maxQueueLen maxAttempts limits environment) ops).coordinator.Remembers := by
  refine (runs_inv (P := fun s : JitSystem => s.Ok ∧ s.coordinator.Remembers) ?_ ?_ ops).2
  · exact fun s op h => ⟨step_ok s op h.1, step_remembers h.1 h.2 op⟩
  · exact ⟨start_ok, nofun⟩

/-- A run without memos is the run with memos, seen without them. -/
theorem runs_plainStep [TypeSizes] (ops : List CoordinatorOp) :
    runs plainStep (start maxQueueLen maxAttempts limits environment) ops =
      (runs step (start maxQueueLen maxAttempts limits environment) ops).withoutMemos := by
  have hrun : ∀ (ops : List CoordinatorOp) {s : JitSystem}, s.Ok → s.coordinator.Remembers →
      runs plainStep s.withoutMemos ops = (runs step s ops).withoutMemos := by
    intro ops
    induction ops with
    | nil => exact fun _ _ => rfl
    | cons op ops ih =>
      intro s h hc
      rw [runs_cons, runs_cons, step_withoutMemos h hc op]
      exact ih (step_ok s op h) (step_remembers h hc op)
  have hstart : (start maxQueueLen maxAttempts limits environment).withoutMemos =
      start maxQueueLen maxAttempts limits environment := by
    have hcache : limits.cache.withoutMemo = limits.cache :=
      CodeCache.withoutMemo_of_none (by cases limits <;> rfl)
    unfold withoutMemos start Coordinator.withoutMemos Coordinator.withCache
    dsimp only
    rw [hcache]
  have hplain := hrun ops (s := start maxQueueLen maxAttempts limits environment) start_ok nofun
  rwa [hstart] at hplain

end JitSystem

/-- In every run, crediting a benefit replies what the system without memos
replies after the same run and leaves the same cells behind; and the cache's
memo is a resident artifact, so that the references on an artifact are those of
resident artifacts only. -/
theorem benefit_memos_coherent [TypeSizes] (maxQueueLen maxAttempts : Nat) (limits : CacheLimits)
    (environment : ArtifactEnvironment) (ops : List CoordinatorOp) (key : FunctionKey) (tier : Tier)
    (savedNs : Nat) :
    let s := runs JitSystem.step (.start maxQueueLen maxAttempts limits environment) ops
    let plain := runs JitSystem.plainStep (.start maxQueueLen maxAttempts limits environment) ops
    plain = s.withoutMemos ∧
    plain.coordinator.creditInstalled key tier savedNs =
      ((s.coordinator.recordBenefit key tier savedNs).1.withoutMemos,
        (s.coordinator.recordBenefit key tier savedNs).2) ∧
    (∀ a, s.coordinator.cache.lastBenefitTarget = some a →
      ∃ key', s.coordinator.cache.artifacts.get? key' = some a) ∧
    ∀ key' a, s.coordinator.cache.artifacts.get? key' = some a →
      (s.coordinator.cache.cells a).deoptReferences =
        s.coordinator.cache.total (CodeCache.refersTo a) := by
  intro s plain
  have hplain : plain = s.withoutMemos := JitSystem.runs_plainStep ops
  have hok : s.Ok := JitSystem.reachable_ok ..
  have hc : s.coordinator.Remembers := JitSystem.reachable_remembers ops
  refine ⟨hplain, ?_, fun a => hok.sound.benefit_resident, fun key' a ha => ?_⟩
  · rw [hplain]
    exact hc.creditInstalled_withoutMemos hok.sound key tier savedNs
  · exact hok.sound.references ha

end QuickJit
