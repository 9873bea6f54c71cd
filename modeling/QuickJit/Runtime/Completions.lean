import QuickJit.Runtime.Refines

/-
  Completions refine the life of each function.

  A completion that is not the expected one changes nothing. An expected one
  lands: it fails, and the flight and the tier's state are cleared, or its
  artifact is inserted, and then every function gives up what was evicted and
  the function compiled gains what was installed.
-/

namespace QuickJit

open Function

namespace Coordinator

variable {cache : CodeCache} {completion : CompileCompletion} {artifact : CompiledArtifact}
  {staged : DependencyGraph} {evicted : List ArtifactKey}

variable {c c₁ : Coordinator} {pins : List Address} {careful : Prop}
  {key k : FunctionKey} {accepted : Tier → Option CompileRequest} {flight : InFlight}

/-! ## Failures -/

/-- The request of `key` that is in flight is the one being compiled. -/
structure Flying (c : Coordinator) (key : FunctionKey) (flight : InFlight) : Prop where
  flight_eq : c.inFlight key = some flight
  known : c.functions.contains key = true
  state_eq : ((c.record key).tier flight.tier).state = .compiling flight.tier

/-- `c₁` is `c` after the flight of `key` landed, but for the state of its tier
and the cache's counters. -/
structure Landed (c : Coordinator) (pins : List Address) (key : FunctionKey) (flight : InFlight)
    (c₁ : Coordinator) : Prop where
  same : c₁ = { c with
    inFlight := Function.update c.inFlight key none, functions := c₁.functions, cache := c₁.cache }
  sound : c₁.cache.Sound pins []
  lookup : ∀ key, c₁.cache.lookup key = c.cache.lookup key
  get?_ne : ∀ {k}, k ≠ key → c₁.functions.get? k = c.functions.get? k
  known : c₁.functions.contains key = true
  states : ∀ t, t ≠ flight.tier → ((c₁.record key).tier t).state = ((c.record key).tier t).state
  published : (c₁.record key).published = (c.record key).published
  retired : (c₁.record key).retired = (c.record key).retired

theorem Landed.clear (hs : c.cache.Sound pins []) (h : c.Flying key flight) :
    c.Landed pins key flight { c with inFlight := Function.update c.inFlight key none } :=
  ⟨rfl, hs, fun _ => rfl, fun _ => rfl, h.known, fun _ _ => rfl, rfl, rfl⟩

section

variable (h : c.Landed pins key flight c₁)

include h

theorem Landed.setState (state : CompileState) :
    c.Landed pins key flight { c₁ with
      functions := c₁.functions.modify key fun f => f.setState flight.tier state } := by
  have hrecord : record { c₁ with
      functions := c₁.functions.modify key fun f => f.setState flight.tier state } key =
      (c₁.record key).setState flight.tier state := by
    rw [record_modify, if_pos ⟨rfl, h.known⟩]
  refine ⟨?_, h.sound, h.lookup, fun hk => (modify_get?_ne _ hk).trans (h.get?_ne hk),
    (contains_modify ..).trans h.known, fun t ht => ?_, ?_, ?_⟩
  · have hsame := h.same
    rw [hsame]
  · rw [hrecord]
    exact (congrFun (state_setState ..) t).trans ((update_of_ne ht ..).trans (h.states t ht))
  · rw [hrecord, published_setState, h.published]
  · rw [hrecord, retired_setState, h.retired]

/-- Another cache with the same artifacts. -/
theorem Landed.setCache (hs : cache.Sound pins [])
    (hlookup : ∀ key, cache.lookup key = c₁.cache.lookup key) :
    c.Landed pins key flight { c₁ with cache } := by
  refine ⟨?_, hs, fun key' => (hlookup key').trans (h.lookup key'), h.get?_ne, h.known, h.states,
    h.published, h.retired⟩
  have hsame := h.same
  rw [hsame]

theorem Landed.life_ne (hk : k ≠ key) :
    c₁.life accepted k = c.life accepted k := by
  refine life_frame (h.get?_ne hk) ?_ ?_ ?_ ?_ ?_ ?_ fun key' _ => h.lookup key'
  case refine_4 =>
    rw [h.same]
    exact update_of_ne hk ..
  all_goals rw [h.same]

theorem Landed.life_self (hfly : c.Flying key flight) :
    c₁.life accepted key = { c.life accepted key with
      state := fun t => ((c₁.record key).tier t).state, flight := none } := by
  apply Life.ext
  case known => exact h.known.trans hfly.known.symm
  case published => exact h.published
  case retired => exact h.retired
  case flight =>
    show c₁.inFlight key = none
    rw [h.same]
    exact update_self ..
  case artifacts =>
    funext key'
    show (if _ then c₁.cache.lookup key' else none) = if _ then c.cache.lookup key' else none
    rw [h.lookup]
  case watermark => exact congrArg (fun c => c.currentGenerations key.id) h.same
  case shutdown =>
    have hshutdown := congrArg Coordinator.shutdown h.same
    exact hshutdown
  case requests => exact congrArg (fun c => c.queue.filter fun r => r.key = key) h.same
  case installed => exact congrArg (fun c => c.installedKeys key) h.same
  case epoch => exact congrArg (fun c => c.latestFeedbackEpochs key) h.same
  all_goals rfl

/-- The states of the other tiers survive, whatever is written for the tier. -/
theorem Landed.update_states (state : CompileState) :
    Function.update (fun t => ((c₁.record key).tier t).state) flight.tier state =
      Function.update (fun t => ((c.record key).tier t).state) flight.tier state := by
  funext t
  by_cases ht : t = flight.tier
  · subst ht
    rw [update_self, update_self]
  · rw [update_of_ne ht, update_of_ne ht, h.states t ht]

theorem Landed.environment : c₁.environment = c.environment := by
  have henvironment := congrArg Coordinator.environment h.same
  exact henvironment

theorem Landed.recordFailure (hfly : c.Flying key flight) :
    Evolves careful c pins (c₁.recordFailure key flight.tier) pins := by
  refine .of_step key h.sound h.environment (fun accepted => ?_) fun accepted k hk => ?_
  · have hlife : (c₁.recordFailure key flight.tier).life accepted key = _ :=
      life_modify accepted _ h.known
    rw [withRecord_setTier, h.update_states, h.life_self hfly] at hlife
    refine (congrArg (Life.Step _ _ _ _) (hlife.trans ?_)).mpr (.fail (l := c.life accepted key)
      flight (TierRecord.failed c₁.maxAttempts c₁.clock ((c₁.record key).tier flight.tier)).state
      hfly.flight_eq hfly.state_eq (failed_isResting ..))
    exact Life.ext rfl rfl h.published h.retired rfl rfl rfl rfl rfl rfl rfl rfl
  · rw [← h.life_ne hk]
    exact life_frame (modify_get?_ne _ hk) rfl rfl rfl rfl rfl rfl fun _ _ => rfl

/-! ## Evictions -/

end

/-- What a function offers its callers. -/
def offer (c : Coordinator) (k : FunctionKey) : Life.Offer :=
  ((c.record k).published, c.installedKeys k)

theorem recordEviction_installedKeys (evicted : ArtifactKey) :
    (c.recordEviction evicted).installedKeys k = (Life.evictOffer k (c.offer k) evicted).2 := by
  unfold Life.evictOffer
  by_cases hk : evicted.function = k
  · subst hk
    rw [if_pos rfl]
    funext t
    exact setInstalled_self ..
  · rw [if_neg hk]
    exact setInstalled_ne (Ne.symm hk) _ _

theorem recordEviction_record (evicted : ArtifactKey) :
    (c.recordEviction evicted).record k =
      { c.record k with published := (Life.evictOffer k (c.offer k) evicted).1 } := by
  have hrecord : (c.recordEviction evicted).record k = _ := record_modify _
  refine hrecord.trans ?_
  unfold Life.evictOffer offer
  by_cases hk : evicted.function = k
  · subst hk
    rw [if_pos (c := evicted.function = evicted.function) rfl]
    cases hknown : c.functions.contains evicted.function with
    | true =>
      have hbaseline : (evicted.tier = .optimizing ∧
          (({ c with lastBenefitTarget := none }.setInstalled evicted.function evicted.tier
            none).installedKeys evicted.function .baseline).isSome = true) ↔
          (evicted.tier = .optimizing ∧
            (c.installedKeys evicted.function .baseline).isSome = true) :=
        and_congr_right fun htier => by
          rw [setInstalled_self, htier, update_of_ne (by decide)]
      refine (if_pos ⟨rfl, hknown⟩).trans ?_
      simp only [hbaseline]
      split
      case isTrue hpublished => rw [if_pos (show (c.record _).published = _ from hpublished)]; rfl
      case isFalse hpublished => rw [if_neg (show ¬ (c.record _).published = _ from hpublished)]; rfl
    | false =>
      have hnone : c.functions.get? evicted.function = none := by
        simpa [OrdMap.contains] using hknown
      have hnew : c.record evicted.function = FunctionState.new := by
        rw [record, hnone]
        rfl
      refine (if_neg fun h => ?_).trans (hnew.trans (by rw [hnew]; rfl))
      cases hknown.symm.trans h.2
  · rw [if_neg hk]
    exact if_neg fun h => hk h.1

theorem recordEviction_offer (evicted : ArtifactKey) :
    (c.recordEviction evicted).offer k = Life.evictOffer k (c.offer k) evicted :=
  Prod.ext (congrArg FunctionState.published (recordEviction_record evicted))
    (recordEviction_installedKeys evicted)

/-- What a number of evictions does to the offer and the record of a function. -/
theorem foldl_recordEviction_offer :
    ∀ (evicted : List ArtifactKey) (c : Coordinator),
      (evicted.foldl recordEviction c).offer k = evicted.foldl (Life.evictOffer k) (c.offer k) ∧
        (evicted.foldl recordEviction c).record k =
          { c.record k with published := (evicted.foldl (Life.evictOffer k) (c.offer k)).1 }
  | [], _ => ⟨rfl, rfl⟩
  | key :: evicted, c => by
    obtain ⟨hoffer, hrecord⟩ := foldl_recordEviction_offer evicted (c.recordEviction key)
    rw [recordEviction_offer] at hoffer hrecord
    refine ⟨hoffer, hrecord.trans ?_⟩
    rw [recordEviction_record]
    rfl

theorem foldl_recordEviction_fixed {α : Type*} (f : Coordinator → α)
    (hf : ∀ c key, f (recordEviction c key) = f c) (evicted : List ArtifactKey) (c : Coordinator) :
    f (evicted.foldl recordEviction c) = f c :=
  runs_fixed f hf c evicted

theorem foldl_recordEviction_contains (evicted : List ArtifactKey) (c : Coordinator) :
    (evicted.foldl recordEviction c).functions.contains k = c.functions.contains k :=
  foldl_recordEviction_fixed (fun c => c.functions.contains k) (fun _ _ => contains_modify ..) evicted c

theorem foldl_recordEviction_life (evicted : List ArtifactKey) (c : Coordinator) :
    (evicted.foldl recordEviction c).life accepted k =
      { c.life accepted k with
        published := (evicted.foldl (Life.evictOffer k) (c.offer k)).1
        installed := (evicted.foldl (Life.evictOffer k) (c.offer k)).2 } := by
  obtain ⟨hoffer, hrecord⟩ := foldl_recordEviction_offer (k := k) evicted c
  apply Life.ext
  case known => exact foldl_recordEviction_contains evicted c
  case state =>
    funext t
    have hstate := congrArg (fun f => (FunctionState.tier f t).state) hrecord
    cases t <;> exact hstate
  case published => exact congrArg FunctionState.published hrecord
  case retired =>
    have hretired := congrArg FunctionState.retired hrecord
    exact hretired
  case installed => exact congrArg Prod.snd hoffer
  case watermark =>
    exact foldl_recordEviction_fixed (fun c => c.currentGenerations k.id) (fun _ _ => rfl) evicted c
  case shutdown => exact foldl_recordEviction_fixed Coordinator.shutdown (fun _ _ => rfl) evicted c
  case requests =>
    exact foldl_recordEviction_fixed (fun c => c.queue.filter fun r => r.key = k) (fun _ _ => rfl)
      evicted c
  case flight => exact foldl_recordEviction_fixed (fun c => c.inFlight k) (fun _ _ => rfl) evicted c
  case epoch =>
    exact foldl_recordEviction_fixed (fun c => c.latestFeedbackEpochs k) (fun _ _ => rfl) evicted c
  case artifacts =>
    exact foldl_recordEviction_fixed (fun c (key : ArtifactKey) =>
      if key.function = k then c.cache.lookup key else none) (fun _ _ => rfl) evicted c
  all_goals rfl

/-! ## Installations -/

theorem install_life_ne (hk : k ≠ key) (tier : Tier) (artifactKey : ArtifactKey) :
    (c.install key tier flight artifactKey).life accepted k = c.life accepted k := by
  refine life_frame (modify_get?_ne _ hk) rfl rfl rfl rfl (setInstalled_ne hk _ _) ?_ fun _ _ => rfl
  show (if flight.sidePath then Function.update c.latestFeedbackEpochs key _ else _) k = _
  split
  · exact update_of_ne hk ..
  · rfl

theorem install_life_self (hknown : c.functions.contains key = true) (tier : Tier)
    (artifactKey : ArtifactKey) :
    (c.install key tier flight artifactKey).life accepted key = { c.life accepted key with
      state := Function.update (c.life accepted key).state tier .cold
      published := some tier
      installed := Function.update (c.life accepted key).installed tier (some artifactKey)
      epoch := if flight.sidePath then some flight.feedbackEpoch else (c.life accepted key).epoch } := by
  have hrecord : (c.install key tier flight artifactKey).record key =
      { (c.record key).setTier tier ⟨.cold, 0⟩ with published := some tier } := by
    have hmodify : (c.install key tier flight artifactKey).record key = _ := record_modify _
    exact hmodify.trans (if_pos ⟨rfl, hknown⟩)
  apply Life.ext
  case known => exact contains_modify ..
  case state =>
    funext t
    have hstate := congrArg (fun f => (FunctionState.tier f t).state) hrecord
    refine hstate.trans ?_
    have hset := congrFun (state_setTier (c.record key) tier ⟨.cold, 0⟩) t
    cases t <;> exact hset
  case published => exact congrArg FunctionState.published hrecord
  case retired =>
    have hretired := congrArg FunctionState.retired hrecord
    exact hretired.trans (retired_setTier ..)
  case installed => exact funext fun t => setInstalled_self ..
  case epoch =>
    show (if flight.sidePath then Function.update c.latestFeedbackEpochs key _ else _) key = _
    split
    · exact update_self ..
    · rfl
  all_goals rfl

theorem inserted_artifacts [TypeSizes] (hs : c.cache.Sound pins [])
    (h : c.cache.Inserted pins artifact evicted cache) (accepted : Tier → Option CompileRequest)
    (k : FunctionKey) :
    (fun key : ArtifactKey => if key.function = k then cache.lookup key else none) =
      if artifact.key.function = k then
        Function.update (Life.keepArtifacts k (c.life accepted k).artifacts evicted) artifact.key
          (some artifact.resident)
      else Life.keepArtifacts k (c.life accepted k).artifacts evicted := by
  funext key
  have hlookup := h.lookup hs key
  have hold : (c.life accepted k).artifacts key =
    if key.function = k then c.cache.lookup key else none := rfl
  rw [hlookup]
  by_cases hkey : key = artifact.key
  · subst hkey
    by_cases hk : artifact.key.function = k
    · rw [if_pos hk, if_pos rfl, if_pos hk, update_self]
    · rw [if_neg hk, if_neg hk, Life.keepArtifacts, if_neg fun h => hk h.2, hold, if_neg hk]
  · have hsame : (if artifact.key.function = k then
        Function.update (Life.keepArtifacts k (c.life accepted k).artifacts evicted) artifact.key
          (some artifact.resident)
        else Life.keepArtifacts k (c.life accepted k).artifacts evicted) key =
        Life.keepArtifacts k (c.life accepted k).artifacts evicted key := by
      split
      · exact update_of_ne hkey ..
      · rfl
    rw [hsame, if_neg hkey, Life.keepArtifacts, hold]
    by_cases hk : key.function = k
    · simp only [hk, if_true, and_true]
    · simp only [hk, if_false, and_false]

/-- A landed flight whose artifact was inserted. -/
theorem Landed.install [TypeSizes] (h : c.Landed pins key flight c₁) (hfly : c.Flying key flight)
    (hinserted : c₁.cache.Inserted pins artifact evicted cache)
    (hkey : artifact.key = flight.artifactKey) (hfunction : artifact.key.function = key)
    (hepoch : flight.tier = .optimizing → ∀ metadata, artifact.optimized = some metadata →
      metadata.feedbackEpoch = flight.feedbackEpoch ∧
        (flight.sidePath = false → c.latestFeedbackEpochs key = some flight.feedbackEpoch)) :
    Evolves careful c pins
      ((evicted.foldl recordEviction { c₁ with cache, dependencies := staged }).install key
        flight.tier flight artifact.key) pins := by
  let c₂ := { c₁ with cache := cache, dependencies := staged }
  have hs := h.sound
  have hlife₂ : ∀ accepted k, c₂.life accepted k =
      { c₁.life accepted k with
        artifacts := fun key => if key.function = k then cache.lookup key else none } :=
    fun _ _ => rfl
  refine ⟨?_, ?_, fun accepted k => ?_⟩
  · have hcache := foldl_recordEviction_fixed Coordinator.cache (fun _ _ => rfl) evicted c₂
    show ((evicted.foldl recordEviction c₂).cache).Sound pins []
    rw [hcache]
    exact hinserted.sound
  · have henv := foldl_recordEviction_fixed Coordinator.environment (fun _ _ => rfl) evicted c₂
    exact henv.trans h.environment
  have hevict : Life.Steps k (c.baseKey k) careful (c.life accepted k) _ :=
    Life.Steps.evictAll evicted (c.life accepted k)
  have hinstalled : c₁.installedKeys k = c.installedKeys k :=
    congrArg (fun c => c.installedKeys k) h.same
  have hartifacts := inserted_artifacts (c := c₁) hs hinserted accepted k
  by_cases hk : k = key
  · subst hk
    have hknown : (evicted.foldl recordEviction c₂).functions.contains k = true :=
      (foldl_recordEviction_contains evicted c₂).trans h.known
    have hoffer : c₂.offer k = ((c.life accepted k).published, (c.life accepted k).installed) :=
      Prod.ext h.published hinstalled
    rw [if_pos hfunction, h.life_self hfly] at hartifacts
    refine hevict.tail ((congrArg (Life.Step _ _ _ _) ?_).mpr (.install flight artifact
      hfly.flight_eq hfly.state_eq hkey (fun _ key' hres htier => ?_) hepoch))
    · rw [install_life_self hknown, foldl_recordEviction_life, hlife₂, hoffer, h.life_self hfly]
      exact Life.ext rfl (h.update_states .cold) rfl rfl rfl rfl rfl rfl rfl rfl hartifacts rfl
    · refine hinserted.replaceable.no_referrer hs ?_ htier
      dsimp only [Life.keepArtifacts] at hres
      split at hres
      · cases hres
      · rw [h.lookup]
        have hsome : (if key'.function = k then c.cache.lookup key' else none).isSome = true := hres
        split at hsome
        · exact hsome
        · cases hsome
  · have hsame : c₁.life accepted k = c.life accepted k := h.life_ne hk
    have hoffer : c₂.offer k = ((c.life accepted k).published, (c.life accepted k).installed) :=
      Prod.ext (congrArg Life.published hsame) hinstalled
    rw [if_neg fun heq => hk (heq.symm.trans hfunction), h.life_ne hk] at hartifacts
    rw [install_life_ne hk, foldl_recordEviction_life, hlife₂, h.life_ne hk, hoffer, hartifacts]
    exact hevict

/-! ## Completions -/

theorem isExpected_iff :
    c.isExpected completion flight = true ↔ c.isCurrentGeneration completion.key = true ∧
      c.functions.contains completion.key = true ∧
      ((c.record completion.key).tier completion.requestedTier).state =
        .compiling completion.requestedTier ∧
      flight.attemptId = completion.attemptId ∧ flight.tier = completion.requestedTier ∧
      flight.artifactKey = completion.artifactKey := by
  unfold isExpected record OrdMap.contains
  cases c.functions.get? completion.key <;> simp [and_assoc]

/-- What a completed artifact goes through. -/
theorem accept_evolves [TypeSizes] (hs : c.cache.Sound pins []) (hfly : c.Flying key flight)
    (hkey : artifact.key = flight.artifactKey) (hfunction : artifact.key.function = key) :
    Evolves careful c pins (c.accept key flight.tier flight artifact).1 pins := by
  have hlanded := Landed.clear hs hfly
  have hready := hlanded.setState (.ready flight.tier)
  unfold accept
  dsimp only
  split
  case h_1 => exact hlanded.recordFailure hfly
  case h_2 hepoch =>
  split
  case h_1 => exact hready.recordFailure hfly
  case h_2 =>
  split
  case h_1 => exact hready.recordFailure hfly
  case h_2 staged _ =>
  unfold publish
  split
  case isFalse => exact hready.recordFailure hfly
  case isTrue =>
  rcases CodeCache.insert_spec hs artifact with ⟨cache, e, heq, hrefused⟩ | ⟨cache, evicted, heq, hins⟩
  · rw [heq]
    exact (hready.setCache hrefused.sound hrefused.lookup).recordFailure hfly
  · rw [heq]
    refine hready.install hfly hins hkey hfunction fun htier metadata hmetadata => ?_
    rw [hmetadata, Option.filter_some] at hepoch
    split at hepoch
    · cases hepoch
    · rename_i hmatch
      simpa [htier] using hmatch

theorem complete_evolves [TypeSizes] (hs : c.cache.Sound pins []) (completion : CompileCompletion)
    (hfunction : ∀ flight, c.inFlight completion.key = some flight →
      flight.artifactKey.function = completion.key) :
    Evolves careful c pins (c.complete completion).1 pins := by
  unfold complete
  split
  case h_1 => exact .refl hs
  case h_2 flight hflight =>
  split
  case isFalse => exact .refl hs
  case isTrue hexpected =>
  obtain ⟨-, hknown, hstate, -, htier, hartifact⟩ := isExpected_iff.mp hexpected
  rw [← htier] at hstate ⊢
  have hfly : c.Flying completion.key flight := ⟨hflight, hknown, hstate⟩
  split
  case h_1 artifact _ =>
    split
    case isTrue hkey =>
      have hkey' := hkey.symm.trans hartifact.symm
      exact accept_evolves hs hfly hkey' (hkey' ▸ hfunction flight hflight)
    case isFalse => exact .refl hs
  case h_2 => exact (Landed.clear hs hfly).recordFailure hfly

/-- The coordinator of a completion that is about to be installed: the flight has
landed, its tier is ready, and the artifact is in the cache and the graph. -/
def ready (c : Coordinator) (completion : CompileCompletion) (cache : CodeCache)
    (staged : DependencyGraph) : Coordinator :=
  { c with
    inFlight := Function.update c.inFlight completion.key none
    functions := c.functions.modify completion.key fun f =>
      f.setState completion.requestedTier (.ready completion.requestedTier)
    cache
    dependencies := staged }

/-- What holds when a completion installs its artifact. -/
structure Installs [TypeSizes] (c : Coordinator) (completion : CompileCompletion) (flight : InFlight)
    (artifact : CompiledArtifact) (evicted : List ArtifactKey) (cache : CodeCache)
    (staged : DependencyGraph) : Prop where
  flight_eq : c.inFlight completion.key = some flight
  expected : c.isExpected completion flight = true
  result_eq : completion.result = .ok artifact
  key_eq : artifact.key = completion.artifactKey
  current : ∀ d ∈ artifact.dependencies, c.isCurrentGeneration d = true
  staged_eq : c.dependencies.install (.function completion.key) completion.key.generation
    (artifact.dependencies.map .function) = .ok staged
  insert_eq : c.cache.insert artifact = (cache, .ok evicted)
  complete_eq : (c.complete completion).1 = (evicted.foldl recordEviction
    (c.ready completion cache staged)).install completion.key completion.requestedTier flight
      artifact.key

theorem Installs.inserted [TypeSizes]
    (h : c.Installs completion flight artifact evicted cache staged) (hs : c.cache.Sound pins []) :
    c.cache.Inserted pins artifact evicted cache := by
  rcases CodeCache.insert_spec hs artifact with ⟨_, e, heq, -⟩ | ⟨_, _, heq, hinserted⟩
  · cases heq.symm.trans h.insert_eq
  · cases heq.symm.trans h.insert_eq
    exact hinserted

theorem publish_eq_installed [TypeSizes] {tier : Tier}
    (h : (c.publish key tier flight artifact staged).2 = .installed evicted) :
    ∃ cache, c.cache.insert artifact = (cache, .ok evicted) ∧
      (c.publish key tier flight artifact staged).1 = (evicted.foldl recordEviction
        { c with cache, dependencies := staged }).install key tier flight artifact.key := by
  unfold publish at h ⊢
  by_cases hpublishes : artifact.publishes = true
  · rw [if_pos hpublishes] at h ⊢
    rcases hinsert : c.cache.insert artifact with ⟨cache, e | evicted'⟩
    · rw [hinsert] at h
      cases h
    · rw [hinsert] at h
      cases h
      exact ⟨cache, rfl, rfl⟩
  · rw [if_neg hpublishes] at h
    cases h

/-- An accepted artifact is published, or it is not installed. -/
theorem accept_cases [TypeSizes] (c : Coordinator) (completion : CompileCompletion)
    (flight : InFlight) (artifact : CompiledArtifact) :
    (∃ staged, (∀ d ∈ artifact.dependencies, c.isCurrentGeneration d = true) ∧
      c.dependencies.install (.function completion.key) completion.key.generation
        (artifact.dependencies.map .function) = .ok staged ∧
      c.accept completion.key completion.requestedTier flight artifact =
        (c.ready completion c.cache c.dependencies).publish completion.key completion.requestedTier
          flight artifact staged) ∨
    ∀ evicted, (c.accept completion.key completion.requestedTier flight artifact).2 ≠
      .installed evicted := by
  unfold accept
  dsimp only
  split
  case h_1 => exact .inr nofun
  case h_2 =>
  split
  case h_1 => exact .inr nofun
  case h_2 hcurrent =>
  split
  case h_1 => exact .inr nofun
  case h_2 staged hstaged =>
  refine .inl ⟨staged, fun d hd => ?_, hstaged, rfl⟩
  have hfound := List.find?_eq_none.mp hcurrent d hd
  rwa [Bool.not_eq_true, Bool.not_eq_false'] at hfound

theorem complete_eq_installed [TypeSizes] (h : (c.complete completion).2 = .installed evicted) :
    ∃ flight artifact cache staged, c.Installs completion flight artifact evicted cache staged := by
  unfold complete at h
  split at h
  case h_1 => cases h
  case h_2 flight hflight =>
  split at h
  case isFalse => cases h
  case isTrue hexpected =>
  split at h
  case h_2 => cases h
  case h_1 artifact hresult =>
  split at h
  case isFalse => cases h
  case isTrue hkey =>
  rcases accept_cases c completion flight artifact with ⟨staged, hcurrent, hstaged, heq⟩ | hnot
  · rw [heq] at h
    obtain ⟨cache, hinsert, hpublish⟩ := publish_eq_installed h
    refine ⟨flight, artifact, cache, staged, hflight, hexpected, hresult, hkey.symm, hcurrent, hstaged,
      hinsert, ?_⟩
    have hcomplete : c.complete completion =
        c.accept completion.key completion.requestedTier flight artifact := by
      unfold complete
      simp only [hflight, hexpected, hresult, hkey, if_true]
    rw [hcomplete, heq]
    exact hpublish
  · exact absurd h (hnot evicted)

end Coordinator

end QuickJit
