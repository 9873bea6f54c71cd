import QuickJit.Runtime.JitSystem

/-
  The coordinator refines the life of each function.

  `Evolves` says that a piece of the coordinator acts on every function as some
  steps of its life, keeps the cache sound and the environment as it is. It is
  proved for the helpers first and composed for the operations. Most pieces
  touch one function; `life_frame` is the argument for all others.
-/

namespace QuickJit

open CodeCache Function OrdMap

namespace Coordinator

variable {r : CompileRequest} {queue : List CompileRequest}

variable {c c' c'' : Coordinator} {pins pins' pins'' : List Address} {careful : Prop}
  {key k : FunctionKey} {accepted : Tier → Option CompileRequest}

/-! ## Records -/

@[simp] theorem record_update (f : FunctionState → FunctionState) :
    (c.update key f).record k = if key = k then f (c.record k) else c.record k := by
  unfold record update
  rw [get?_insert]
  by_cases hk : key = k
  · subst hk
    simp [record]
  · simp [hk]

theorem record_modify (f : FunctionState → FunctionState) :
    record { c with functions := c.functions.modify key f } k =
      if key = k ∧ c.functions.contains k then f (c.record k) else c.record k := by
  unfold record
  rw [get?_modify, OrdMap.contains]
  by_cases hk : key = k
  · subst hk
    cases c.functions.get? key <;> simp
  · simp [hk]

theorem contains_insert (m : OrdMap FunctionKey FunctionState) (f : FunctionState) :
    (m.insert key f).contains k = (decide (key = k) || m.contains k) := by
  unfold OrdMap.contains
  rw [get?_insert]
  by_cases hk : key = k <;> simp [hk]

theorem contains_modify (m : OrdMap FunctionKey FunctionState) (f : FunctionState → FunctionState) :
    (m.modify key f).contains k = m.contains k := by
  unfold OrdMap.contains
  rw [get?_modify]
  by_cases hk : key = k <;> simp [hk]

section

variable (f : FunctionState)

@[simp] theorem tier_setTier (t t' : Tier) (record : TierRecord) :
    (f.setTier t record).tier t' = if t' = t then record else f.tier t' := by
  cases t <;> cases t' <;> rfl

@[simp] theorem published_setTier (t : Tier) (record : TierRecord) :
    (f.setTier t record).published = f.published := by
  cases t <;> rfl

@[simp] theorem retired_setTier (t : Tier) (record : TierRecord) :
    (f.setTier t record).retired = f.retired := by
  cases t <;> rfl

/-- The states of a record after one was written. -/
theorem state_setTier (t : Tier) (record : TierRecord) :
    (fun t' => ((f.setTier t record).tier t').state) =
      Function.update (fun t' => (f.tier t').state) t record.state := by
  funext t'
  rw [tier_setTier]
  by_cases ht : t' = t
  · subst ht
    simp
  · simp [ht]

theorem state_setState (t : Tier) (state : CompileState) :
    (fun t' => ((f.setState t state).tier t').state) =
      Function.update (fun t' => (f.tier t').state) t state :=
  state_setTier ..

@[simp] theorem published_setState (t : Tier) (state : CompileState) :
    (f.setState t state).published = f.published := published_setTier ..

@[simp] theorem retired_setState (t : Tier) (state : CompileState) :
    (f.setState t state).retired = f.retired := retired_setTier ..

/-! ## Evolutions -/

end

/-- The life of a function that a piece of the coordinator leaves alone. -/
theorem life_frame (hget : c'.functions.get? k = c.functions.get? k)
    (hgeneration : c'.currentGenerations k.id = c.currentGenerations k.id)
    (hshutdown : c'.shutdown = c.shutdown)
    (hqueue : c'.queue.filter (fun r => r.key = k) = c.queue.filter fun r => r.key = k)
    (hflight : c'.inFlight k = c.inFlight k) (hinstalled : c'.installedKeys k = c.installedKeys k)
    (hepoch : c'.latestFeedbackEpochs k = c.latestFeedbackEpochs k)
    (hlookup : ∀ key, key.function = k → c'.cache.lookup key = c.cache.lookup key) :
    c'.life accepted k = c.life accepted k := by
  have hartifacts : (fun key : ArtifactKey => if key.function = k then c'.cache.lookup key else none) =
      fun key => if key.function = k then c.cache.lookup key else none := by
    funext key
    by_cases hkey : key.function = k
    · rw [if_pos hkey, if_pos hkey, hlookup key hkey]
    · rw [if_neg hkey, if_neg hkey]
  unfold life record OrdMap.contains
  rw [hget, hgeneration, hshutdown, hqueue, hflight, hinstalled, hepoch, hartifacts]

/-- A life with what it shows of a record replaced. -/
def withRecord (l : Life) (f : FunctionState) : Life :=
  { l with state := fun t => (f.tier t).state, published := f.published, retired := f.retired }

theorem life_modify (accepted : Tier → Option CompileRequest) (f : FunctionState → FunctionState)
    (hknown : c.functions.contains key = true) :
    life { c with functions := c.functions.modify key f } accepted key =
      withRecord (c.life accepted key) (f (c.record key)) := by
  show { withRecord (c.life accepted key) (record { c with functions := c.functions.modify key f } key)
    with known := (c.functions.modify key f).contains key } = _
  rw [record_modify, if_pos ⟨rfl, hknown⟩, contains_modify]
  rfl

theorem life_update (accepted : Tier → Option CompileRequest) (f : FunctionState → FunctionState) :
    (c.update key f).life accepted key =
      { withRecord (c.life accepted key) (f (c.record key)) with known := true } := by
  show { withRecord (c.life accepted key) ((c.update key f).record key) with
    known := (c.functions.insert key (f (c.record key))).contains key } = _
  rw [record_update, if_pos rfl, contains_insert, decide_eq_true rfl, Bool.true_or]

theorem withRecord_setState (l : Life) (f : FunctionState) (t : Tier) (state : CompileState) :
    withRecord l (f.setState t state) =
      { withRecord l f with state := Function.update (fun t => (f.tier t).state) t state } := by
  unfold withRecord
  rw [state_setState, published_setState, retired_setState]

/-- From `c`, whose callers hold `pins`, to `c'`, whose callers hold `pins'`. -/
structure Evolves (careful : Prop) (c : Coordinator) (pins : List Address) (c' : Coordinator)
    (pins' : List Address) : Prop where
  sound : c'.cache.Sound pins' []
  environment : c'.environment = c.environment
  steps : ∀ accepted k, Life.Steps k (c.baseKey k) careful (c.life accepted k) (c'.life accepted k)

theorem baseKey_congr (h : c'.environment = c.environment) (k : FunctionKey) :
    c'.baseKey k = c.baseKey k := by
  unfold baseKey
  rw [h]

theorem Evolves.refl (hs : c.cache.Sound pins []) : Evolves careful c pins c pins :=
  ⟨hs, rfl, fun _ _ => .refl⟩

theorem Evolves.trans (h : Evolves careful c pins c' pins') (h' : Evolves careful c' pins' c'' pins'') :
    Evolves careful c pins c'' pins'' :=
  ⟨h'.sound, h'.environment.trans h.environment, fun accepted k =>
    (h.steps accepted k).trans (baseKey_congr h.environment k ▸ h'.steps accepted k)⟩

/-- A piece that no function sees. -/
theorem Evolves.of_life (hs : c'.cache.Sound pins' []) (henv : c'.environment = c.environment)
    (h : ∀ accepted k, c'.life accepted k = c.life accepted k) : Evolves careful c pins c' pins' :=
  ⟨hs, henv, fun accepted k => by rw [h]; exact .refl⟩

/-- A piece that one function sees as one step. -/
theorem Evolves.of_step (key : FunctionKey) (hs : c'.cache.Sound pins' [])
    (henv : c'.environment = c.environment)
    (hself : ∀ accepted, Life.Step key (c.baseKey key) careful (c.life accepted key)
      (c'.life accepted key))
    (hother : ∀ accepted k, k ≠ key → c'.life accepted k = c.life accepted k) :
    Evolves careful c pins c' pins' := by
  refine ⟨hs, henv, fun accepted k => ?_⟩
  by_cases hk : k = key
  · subst hk
    exact .single (hself accepted)
  · rw [hother accepted k hk]
    exact .refl

theorem filter_filter_ne (hk : k ≠ key) :
    (queue.filter fun r => r.key ≠ key).filter (fun r => r.key = k) =
      queue.filter fun r => r.key = k := by
  rw [List.filter_filter]
  refine List.filter_congr fun r _ => ?_
  by_cases hr : r.key = k
  · simp [hr, hk]
  · simp [hr]

/-! ## Retirement -/

theorem retireState_life_self (hs : c.cache.Sound pins []) :
    (c.retireState key).life accepted key = (c.life accepted key).retire := by
  have hrecord : (c.retireState key).record key =
      { c.record key with retired := true, published := none } := by
    show ((c.functions.insert key _).get? key).getD _ = _
    rw [get?_insert_self]
    rfl
  have hartifacts : (c.retireState key).cache.lookup =
      (c.cache.invalidateDeferred key).lookup := rfl
  apply Life.ext
  case known => simp [life, retireState, update, contains_insert, Life.retire]
  case state =>
    funext t
    show ((record _ key).tier t).state = _
    rw [hrecord]
    cases t <;> rfl
  case published => exact congrArg FunctionState.published hrecord
  case retired => exact congrArg FunctionState.retired hrecord
  case requests =>
    show (c.queue.filter fun r => r.key ≠ key).filter (fun r => r.key = key) = []
    rw [List.filter_filter, List.filter_eq_nil_iff]
    simp
  case flight => exact update_self ..
  case installed =>
    funext t
    exact if_pos rfl
  case artifacts =>
    funext key'
    show (if key'.function = key then (c.retireState key).cache.lookup key' else none) =
      (if key'.function = key then c.cache.lookup key' else none).map Resident.mark
    rw [hartifacts]
    by_cases hkey : key'.function = key
    · rw [if_pos hkey, if_pos hkey, lookup_invalidateDeferred hs, if_pos hkey]
    · rw [if_neg hkey, if_neg hkey]
      rfl
  all_goals rfl

theorem retireState_life_ne (hs : c.cache.Sound pins []) (hk : k ≠ key) :
    (c.retireState key).life accepted k = c.life accepted k := by
  refine life_frame ?_ rfl rfl (filter_filter_ne hk) (update_of_ne hk ..) ?_ rfl ?_
  · exact get?_insert_ne _ _ (Ne.symm hk)
  · funext t
    exact if_neg hk
  · intro key' hkey'
    show (c.cache.invalidateDeferred key).lookup key' = _
    rw [lookup_invalidateDeferred hs, if_neg]
    exact fun heq => hk (hkey'.symm.trans heq)

theorem retireState_evolves (hs : c.cache.Sound pins []) (key : FunctionKey) :
    Evolves careful c pins (c.retireState key) pins := by
  refine .of_step key (hs.invalidateDeferred key) rfl (fun accepted => ?_) fun accepted k hk =>
    retireState_life_ne hs hk
  rw [retireState_life_self hs]
  exact .retire

theorem foldl_retireState_evolves :
    ∀ (keys : List FunctionKey) {c : Coordinator}, c.cache.Sound pins [] →
      Evolves careful c pins (keys.foldl retireState c) pins
  | [], _, hs => .refl hs
  | key :: keys, _, hs =>
    (retireState_evolves hs key).trans
      (foldl_retireState_evolves keys (hs.invalidateDeferred key))

/-- What one retirement leaves alone, several do. -/
theorem foldl_retireState_fixed {α : Type*} (f : Coordinator → α)
    (hf : ∀ c key, f (retireState c key) = f c) (keys : List FunctionKey) (c : Coordinator) :
    f (keys.foldl retireState c) = f c :=
  runs_fixed f hf c keys

theorem retireState_get?_self (c : Coordinator) (key : FunctionKey) :
    (c.retireState key).functions.get? key =
      some { c.record key with retired := true, published := none } :=
  get?_insert_self ..

theorem retireState_get?_ne (hk : k ≠ key) :
    (c.retireState key).functions.get? k = c.functions.get? k :=
  get?_insert_ne _ _ (Ne.symm hk)

theorem foldl_retireState_get?_ne :
    ∀ {keys : List FunctionKey} {c : Coordinator}, k ∉ keys →
      (keys.foldl retireState c).functions.get? k = c.functions.get? k
  | [], _, _ => rfl
  | key :: keys, c, hk => by
    rw [List.foldl_cons, foldl_retireState_get?_ne (List.not_mem_of_not_mem_cons hk),
      retireState_get?_ne (List.ne_of_not_mem_cons hk)]

theorem retireState_retired (h : ∃ f, c.functions.get? k = some f ∧ f.retired = true)
    (key : FunctionKey) : ∃ f, (c.retireState key).functions.get? k = some f ∧ f.retired = true := by
  by_cases hk : k = key
  · subst hk
    exact ⟨_, retireState_get?_self c k, rfl⟩
  · rw [retireState_get?_ne hk]
    exact h

theorem foldl_retireState_retired :
    ∀ {keys : List FunctionKey} {c : Coordinator},
      (k ∈ keys ∨ ∃ f, c.functions.get? k = some f ∧ f.retired = true) →
      ∃ f, (keys.foldl retireState c).functions.get? k = some f ∧ f.retired = true
  | [], _, h => h.resolve_left List.not_mem_nil
  | key :: keys, c, h => by
    refine foldl_retireState_retired (c := c.retireState key) ?_
    rcases h with h | h
    · rcases List.mem_cons.mp h with rfl | h
      · exact .inr ⟨_, retireState_get?_self c k, rfl⟩
      · exact .inl h
    · exact .inr (retireState_retired h key)

theorem foldl_retireState_life_ne :
    ∀ {keys : List FunctionKey} {c : Coordinator}, c.cache.Sound pins [] → k ∉ keys →
      (keys.foldl retireState c).life accepted k = c.life accepted k
  | [], _, _, _ => rfl
  | key :: keys, c, hs, hk => by
    rw [List.foldl_cons, foldl_retireState_life_ne (hs.invalidateDeferred key)
      (List.not_mem_of_not_mem_cons hk), retireState_life_ne hs (List.ne_of_not_mem_cons hk)]

/-! ## The generation watermark -/

def olderGenerations (c : Coordinator) (key : FunctionKey) : List FunctionKey :=
  c.functions.keys.filter fun k => k.id = key.id ∧ k.generation < key.generation

theorem mem_olderGenerations :
    k ∈ c.olderGenerations key ↔
      c.functions.contains k = true ∧ k.id = key.id ∧ k.generation < key.generation := by
  unfold olderGenerations
  rw [List.mem_filter, mem_keys, contains_iff, decide_eq_true_eq]

theorem advanceGeneration_life_self (hs : c.cache.Sound pins []) :
    (c.advanceGeneration key).life accepted key =
      { c.life accepted key with watermark := (c.advanceGeneration key).currentGenerations key.id } := by
  unfold advanceGeneration
  split
  · have hself : key ∉ c.olderGenerations key := fun h =>
      absurd (mem_olderGenerations.mp h).2.2 (Nat.lt_irrefl _)
    have hlife : ((c.olderGenerations key).foldl retireState c).life accepted key =
        c.life accepted key := foldl_retireState_life_ne hs hself
    rw [← hlife]
    rfl
  · rfl

theorem advanceGeneration_evolves (hs : c.cache.Sound pins []) (key : FunctionKey) :
    Evolves careful c pins (c.advanceGeneration key) pins := by
  unfold advanceGeneration
  split
  case isFalse => exact .refl hs
  case isTrue hnewer =>
  have hretire : Evolves careful c pins (c.retireOlderGenerations key) pins :=
    foldl_retireState_evolves (c.olderGenerations key) hs
  refine hretire.trans ⟨hretire.sound, rfl, fun accepted k => ?_⟩
  dsimp only
  have hgenerations : ((c.olderGenerations key).foldl retireState c).currentGenerations =
      c.currentGenerations := foldl_retireState_fixed (·.currentGenerations) (fun _ _ => rfl) _ c
  by_cases hid : k.id = key.id
  · have hlife : life { c.retireOlderGenerations key with
        currentGenerations := Function.update (c.retireOlderGenerations key).currentGenerations key.id
          (some key.generation) } accepted k =
        { (c.retireOlderGenerations key).life accepted k with
          watermark := some key.generation } := by
      unfold life
      dsimp only
      rw [hid, update_self]
      rfl
    rw [hlife]
    refine .single (.advance key.generation (fun w hw => ?_) fun hknown hlt => ?_)
    · have hw' : c.currentGenerations k.id = some w := (congrFun hgenerations k.id).symm.trans hw
      rw [hid] at hw'
      rw [hw'] at hnewer
      simpa using hnewer
    · -- retiring older generations records no function that was unknown
      have hmem : k ∈ c.olderGenerations key := by
        by_contra hnot
        refine hnot (mem_olderGenerations.mpr ⟨?_, hid, hlt⟩)
        have hget := foldl_retireState_get?_ne (c := c) hnot
        have hcontains : (((c.olderGenerations key).foldl retireState c).functions.get? k).isSome :=
          hknown
        rw [hget] at hcontains
        exact hcontains
      obtain ⟨f, hf, hretired⟩ := foldl_retireState_retired (c := c) (.inl hmem)
      have hrecord : ((c.olderGenerations key).foldl retireState c).record k = f := by
        unfold record
        rw [hf]
        rfl
      show (record _ k).retired = true
      exact (congrArg FunctionState.retired hrecord).trans hretired
  · have hlife : life { c.retireOlderGenerations key with
        currentGenerations := Function.update (c.retireOlderGenerations key).currentGenerations key.id
          (some key.generation) } accepted k = (c.retireOlderGenerations key).life accepted k :=
      life_frame rfl (update_of_ne hid ..) rfl rfl rfl rfl rfl fun _ _ => rfl
    rw [hlife]
    exact .refl

/-! ## Operations that leave every function alone -/

/-- Another cache with the same artifacts. -/
theorem Evolves.of_cache {cache : CodeCache} (hs : cache.Sound pins' [])
    (h : ∀ key, cache.lookup key = c.cache.lookup key) :
    Evolves careful c pins { c with cache } pins' :=
  .of_life hs rfl fun _ _ => life_frame rfl rfl rfl rfl rfl rfl rfl fun key _ => h key

section

variable (hs : c.cache.Sound pins [])

include hs

theorem pin_spec (key : FunctionKey) (tier : Tier) :
    ∃ cache, (c.pin key tier).1 = { c with cache } ∧
      cache.Sound ((c.pin key tier).2.toList ++ pins) [] ∧
        ∀ key', cache.lookup key' = c.cache.lookup key' := by
  unfold pin
  split
  case h_1 => exact ⟨c.cache, rfl, hs, fun _ => rfl⟩
  case h_2 artifactKey _ =>
  have hpin := hs.pin artifactKey
  have hlookup := lookup_pin c.cache artifactKey
  split
  case h_1 cache heq =>
    rw [heq] at hpin hlookup
    exact ⟨cache, rfl, hpin, hlookup⟩
  case h_2 cache a heq =>
    rw [heq] at hpin hlookup
    split
    · refine ⟨cache.dropPin a, rfl, ?_, fun key' => ?_⟩
      · have hdrop := hpin.dropPin (a := a) List.mem_cons_self
        simpa using hdrop
      · rw [lookup_dropPin, hlookup]
    · exact ⟨cache, rfl, hpin, hlookup⟩

theorem pin_evolves (key : FunctionKey) (tier : Tier) :
    Evolves careful c pins (c.pin key tier).1 ((c.pin key tier).2.toList ++ pins) := by
  obtain ⟨cache, heq, hsound, hlookup⟩ := pin_spec hs key tier
  rw [heq]
  exact .of_cache hsound hlookup

theorem dropPin_evolves {a : Address} (ha : a ∈ pins) :
    Evolves careful c pins (c.dropPin a) (pins.erase a) :=
  .of_cache (hs.dropPin ha) (lookup_dropPin c.cache a)

theorem lookUp_spec (target : FunctionKey × Tier) :
    ∃ cache, c.lookUp target = { c with cache } ∧ cache.Sound pins [] ∧
      ∀ key, cache.lookup key = c.cache.lookup key := by
  obtain ⟨cache, heq, hsound, hlookup⟩ := pin_spec hs target.1 target.2
  unfold lookUp
  split
  case h_1 c' a hpin =>
    rw [hpin] at heq hsound
    have hdrop := hsound.dropPin (a := a) List.mem_cons_self
    refine ⟨cache.dropPin a, by rw [show c' = _ from heq]; rfl, by simpa using hdrop, fun key => ?_⟩
    rw [lookup_dropPin, hlookup]
  case h_2 c' hpin =>
    rw [hpin] at heq hsound
    exact ⟨cache, heq, hsound, hlookup⟩

end

theorem foldl_lookUp_spec :
    ∀ (lookups : List (FunctionKey × Tier)) {c : Coordinator}, c.cache.Sound pins [] →
      ∃ cache, lookups.foldl lookUp c = { c with cache } ∧ cache.Sound pins [] ∧
        ∀ key, cache.lookup key = c.cache.lookup key
  | [], c, hs => ⟨c.cache, rfl, hs, fun _ => rfl⟩
  | target :: lookups, c, hs => by
    obtain ⟨cache, heq, hsound, hlookup⟩ := lookUp_spec hs target
    rw [List.foldl_cons, heq]
    obtain ⟨cache', heq', hsound', hlookup'⟩ :=
      foldl_lookUp_spec lookups (c := { c with cache }) hsound
    exact ⟨cache', heq', hsound', fun key => (hlookup' key).trans (hlookup key)⟩

theorem planTargets_spec (hs : c.cache.Sound pins []) (sidePath : Option SidePathProfile)
    (targets : CallTargets) :
    ∃ cache, c.planTargets sidePath targets = { c with cache } ∧ cache.Sound pins [] ∧
      ∀ key, cache.lookup key = c.cache.lookup key := by
  unfold planTargets
  split
  · exact foldl_lookUp_spec targets.lookups hs
  · exact ⟨c.cache, rfl, hs, fun _ => rfl⟩

theorem recordBenefit_evolves (hs : c.cache.Sound pins []) (key : FunctionKey) (tier : Tier)
    (savedNs : Nat) : Evolves careful c pins (c.recordBenefit key tier savedNs).1 pins := by
  unfold recordBenefit
  dsimp only
  split
  · exact .refl hs
  · refine .of_life (hs.recordBenefit _ savedNs) rfl fun _ _ => ?_
    exact life_frame rfl rfl rfl rfl rfl rfl rfl fun key _ => lookup_recordBenefit ..

theorem registerCallSpecialization_eq (primary : BoundedSpecializationSignature)
    (call : CallSpecializationKey) :
    ∃ versions, (c.registerCallSpecialization primary call).1 =
      { c with callSpecializationVersions := versions } := by
  unfold registerCallSpecialization
  split
  · exact ⟨_, rfl⟩
  · dsimp only
    split
    · split
      · exact ⟨_, rfl⟩
      · exact ⟨_, rfl⟩
    · split
      · exact ⟨_, rfl⟩
      · exact ⟨_, rfl⟩

section

variable (hs : c.cache.Sound pins [])

include hs

section

variable (primary : BoundedSpecializationSignature)

theorem registerCallSpecialization_evolves (call : CallSpecializationKey) :
    Evolves careful c pins (c.registerCallSpecialization primary call).1 pins := by
  obtain ⟨versions, heq⟩ := registerCallSpecialization_eq (c := c) primary call
  rw [heq]
  exact .of_life hs rfl fun _ _ => life_frame rfl rfl rfl rfl rfl rfl rfl fun _ _ => rfl

theorem resolveCompiledCallTarget_spec (call : CallSpecializationKey) :
    ∃ cache versions, (c.resolveCompiledCallTarget primary call).1 =
      { c with cache, callSpecializationVersions := versions } ∧
        cache.Sound (targetPins (c.resolveCompiledCallTarget primary call).2 ++ pins) [] ∧
          ∀ key, cache.lookup key = c.cache.lookup key := by
  unfold resolveCompiledCallTarget
  split
  · exact ⟨c.cache, _, rfl, hs, fun _ => rfl⟩
  split
  · exact ⟨c.cache, _, rfl, hs, fun _ => rfl⟩
  obtain ⟨cache, hpin, hsound, hlookup⟩ := pin_spec hs call.callee .optimizing
  split
  case h_1 c' heq =>
    rw [heq] at hpin hsound
    exact ⟨cache, _, hpin, hsound, hlookup⟩
  case h_2 c' a heq =>
    rw [heq] at hpin hsound
    subst hpin
    obtain ⟨versions, hregister⟩ := registerCallSpecialization_eq (c := { c with cache }) primary call
    split
    case h_1 c'' identity heq' =>
      rw [heq'] at hregister
      exact ⟨cache, versions, hregister, hsound, hlookup⟩
    case h_2 c'' e heq' =>
      rw [heq'] at hregister
      have hdrop := hsound.dropPin (a := a) List.mem_cons_self
      refine ⟨cache.dropPin a, versions, ?_, by simpa [targetPins] using hdrop, fun key => ?_⟩
      · rw [show c'' = _ from hregister]
        rfl
      · rw [lookup_dropPin, hlookup]

theorem resolveCompiledCallTarget_evolves (call : CallSpecializationKey) :
    Evolves careful c pins (c.resolveCompiledCallTarget primary call).1
      (targetPins (c.resolveCompiledCallTarget primary call).2 ++ pins) := by
  obtain ⟨cache, versions, heq, hsound, hlookup⟩ := resolveCompiledCallTarget_spec hs primary call
  rw [heq]
  exact .of_life hsound rfl fun _ _ => life_frame rfl rfl rfl rfl rfl rfl rfl fun key _ => hlookup key

end

theorem advanceClock_evolves (now : Nat) :
    Evolves careful c pins (c.advanceClock now) pins :=
  .of_life hs rfl fun _ _ => life_frame rfl rfl rfl rfl rfl rfl rfl fun _ _ => rfl

end

/-- A cache from which invalidated artifacts were reclaimed. -/
theorem Evolves.of_reclaimed {cache : CodeCache} (h : c.cache.Reclaimed pins cache) :
    Evolves careful c pins { c with cache } pins := by
  refine ⟨h.sound, rfl, fun accepted k => .single ?_⟩
  refine .reclaim (l := c.life accepted k) _ fun key => ?_
  show (if key.function = k then cache.lookup key else none) =
      (if key.function = k then c.cache.lookup key else none) ∨ _
  by_cases hkey : key.function = k
  · have hcase := h.lookup key
    show _ ∨ (if key.function = k then _ else none) = none ∧
      ∃ x, (if key.function = k then _ else none) = some x ∧ _
    simpa only [if_pos hkey] using hcase
  · exact .inl (by rw [if_neg hkey, if_neg hkey])

theorem pollReclamation_evolves (hs : c.cache.Sound pins []) (budget : Nat) :
    Evolves careful c pins (c.pollReclamation budget).1 pins :=
  .of_reclaimed (pollReclamationWithBudget_reclaimed hs budget)

/-! ## `retire` and `shutdown` -/

/-- The function a dependency key stands for. -/
def dependencyFunction : DependencyKey → Option FunctionKey
  | .function function => some function
  | .shape _ | .prototype _ => none

theorem foldl_retireDependency :
    ∀ (l : List DependencyKey) (c : Coordinator),
      l.foldl retireDependency c = (l.filterMap dependencyFunction).foldl retireState c
  | [], _ => rfl
  | .function _ :: rest, c => foldl_retireDependency rest (c.retireState _)
  | .shape _ :: rest, c => foldl_retireDependency rest c
  | .prototype _ :: rest, c => foldl_retireDependency rest c

/-- The functions that `retire` retires besides older generations. -/
def retired (c : Coordinator) (key : FunctionKey) : List FunctionKey :=
  let own := DependencyKey.function key
  let invalidated := (c.dependencies.invalidate own).2
  (if own ∈ invalidated then invalidated else invalidated ++ [own]).filterMap dependencyFunction

theorem retire_eq (c : Coordinator) (key : FunctionKey) :
    c.retire key = ((c.advanceGeneration key).retired key).foldl retireState
      { c.advanceGeneration key with
        dependencies := ((c.advanceGeneration key).dependencies.invalidate (.function key)).1 } :=
  foldl_retireDependency ..

theorem mem_retired_self (c : Coordinator) (key : FunctionKey) : key ∈ c.retired key := by
  unfold retired
  dsimp only
  refine List.mem_filterMap.mpr ⟨.function key, ?_, rfl⟩
  split
  · assumption
  · exact List.mem_append_right _ List.mem_cons_self

theorem mem_retired_of_invalidated
    (h : .function k ∈ (c.dependencies.invalidate (.function key)).2) : k ∈ c.retired key := by
  unfold retired
  dsimp only
  refine List.mem_filterMap.mpr ⟨.function k, ?_, rfl⟩
  split
  · exact h
  · exact List.mem_append_left _ h

theorem retire_evolves (hs : c.cache.Sound pins []) (key : FunctionKey) :
    Evolves careful c pins (c.retire key) pins := by
  have hadvance : Evolves careful c pins (c.advanceGeneration key) pins :=
    advanceGeneration_evolves hs key
  rw [retire_eq]
  have hgraph : Evolves careful (c.advanceGeneration key) pins { c.advanceGeneration key with
      dependencies := ((c.advanceGeneration key).dependencies.invalidate (.function key)).1 } pins :=
    .of_life hadvance.sound rfl fun _ _ => life_frame rfl rfl rfl rfl rfl rfl rfl fun _ _ => rfl
  exact (hadvance.trans hgraph).trans (foldl_retireState_evolves _ hgraph.sound)

/-- A coordinator as shutting down leaves it, before its functions retire. -/
def cleared (c : Coordinator) : Coordinator :=
  { c with shutdown := true, queue := [], inFlight := fun _ => none }

theorem retireState_cleared (c : Coordinator) (key : FunctionKey) :
    c.cleared.retireState key = (c.retireState key).cleared := by
  have hflight : Function.update (fun _ : FunctionKey => (none : Option InFlight)) key none =
      fun _ => none := by
    funext k
    by_cases hk : k = key
    · subst hk
      exact update_self ..
    · exact update_of_ne hk ..
  unfold retireState cleared
  dsimp only [update, record]
  rw [hflight]
  rfl

theorem foldl_retireState_cleared :
    ∀ (keys : List FunctionKey) (c : Coordinator),
      keys.foldl retireState c.cleared = (keys.foldl retireState c).cleared
  | [], _ => rfl
  | key :: keys, c => by
    rw [List.foldl_cons, List.foldl_cons, retireState_cleared, foldl_retireState_cleared]

theorem shutDown_evolves (hs : c.cache.Sound pins []) : Evolves careful c pins c.shutDown pins := by
  unfold shutDown
  split
  · exact .refl hs
  have hretire : Evolves careful c pins (c.functions.keys.foldl retireState c) pins :=
    foldl_retireState_evolves _ hs
  have hclear : Evolves careful (c.functions.keys.foldl retireState c) pins
      (c.functions.keys.foldl retireState c).cleared pins := by
    refine ⟨hretire.sound, rfl, fun accepted k => .single (.shut fun hknown => ?_)⟩
    have hmem : k ∈ c.functions.keys := by
      by_contra hnot
      have hget := foldl_retireState_get?_ne (c := c) hnot
      have hcontains : ((c.functions.keys.foldl retireState c).functions.get? k).isSome := hknown
      rw [hget] at hcontains
      exact hnot (mem_keys.mpr (Option.isSome_iff_exists.mp hcontains))
    obtain ⟨f, hf, hretired⟩ := foldl_retireState_retired (c := c) (.inl hmem)
    show (record _ k).retired = true
    rw [record, hf]
    exact hretired
  have hcleared := (hretire.trans hclear).trans
    (.of_reclaimed (collectInvalidated_reclaimed hclear.sound))
  rw [← foldl_retireState_cleared] at hcleared
  exact hcleared

/-! ## The queue -/

theorem perm_cons_eraseP {p : CompileRequest → Bool} :
    ∀ {l : List CompileRequest}, l.find? p = some r → (r :: l.eraseP p).Perm l
  | x :: rest, h => by
    by_cases hx : p x = true
    · rw [List.find?_cons_of_pos hx] at h
      cases h
      rw [List.eraseP_cons_of_pos hx]
    · rw [List.find?_cons_of_neg hx] at h
      rw [List.eraseP_cons_of_neg hx]
      exact (List.Perm.swap ..).trans ((perm_cons_eraseP h).cons x)

theorem prioritize_evolves (hs : c.cache.Sound pins []) (key : FunctionKey) (tier : Tier) :
    Evolves careful c pins (c.prioritize key tier).1 pins := by
  unfold prioritize
  split
  case h_1 request hfind =>
    refine ⟨hs, rfl, fun accepted k => .single ?_⟩
    exact .reorder (l := c.life accepted k) _ ((perm_cons_eraseP hfind).filter _)
  case h_2 => exact .refl hs

theorem isWanted_iff :
    c.isWanted r = true ↔ c.functions.contains r.key = true ∧
      ((c.record r.key).tier r.tier).state = .queued r.tier := by
  unfold isWanted record OrdMap.contains
  cases c.functions.get? r.key <;> simp

/-- The requests that are no longer wanted, dropped. -/
theorem dropUnwanted_evolves (hs : c.cache.Sound pins []) :
    Evolves careful c pins
      { c with queue := c.queue.dropWhile fun request => !c.isWanted request } pins := by
  refine ⟨hs, rfl, fun accepted k => ?_⟩
  refine Life.Steps.discards (l := c.life accepted k)
    ((c.queue.takeWhile fun request => !c.isWanted request).filter fun r => r.key = k) ?_ ?_
  · show c.queue.filter (fun r => r.key = k) = _
    rw [← List.filter_append, List.takeWhile_append_dropWhile]
  · intro r hr hknown hqueued
    obtain ⟨hmem, hkey⟩ := List.mem_filter.mp hr
    have hkey : r.key = k := by simpa using hkey
    have hunwanted := List.mem_takeWhile_imp hmem
    have hwanted : c.isWanted r = true := isWanted_iff.mpr (hkey ▸ ⟨hknown, hqueued⟩)
    rw [hwanted] at hunwanted
    cases hunwanted

theorem filter_cons_ne (hk : k ≠ r.key) :
    (r :: queue).filter (fun r => r.key = k) = queue.filter fun r => r.key = k :=
  List.filter_cons_of_neg (by simpa using Ne.symm hk)

theorem filter_cons_self :
    (r :: queue).filter (fun r' => r'.key = r.key) = r :: queue.filter fun r' => r'.key = r.key :=
  List.filter_cons_of_pos (by simp)

/-- What `begin_next` hands out was wanted. -/
theorem beginNext_eq (h : c.beginNext.2 = some r) :
    c.isWanted r = true ∧ r ∈ c.queue := by
  unfold beginNext at h
  split at h
  · cases h
  case h_2 request queue heq =>
    cases h
    have hhead := List.head?_dropWhile_not (fun request => !c.isWanted request) c.queue
    rw [heq] at hhead
    refine ⟨by simpa using hhead, ?_⟩
    exact (List.dropWhile_suffix _).subset (heq ▸ List.mem_cons_self)

theorem beginNext_evolves (hs : c.cache.Sound pins []) :
    Evolves careful c pins c.beginNext.1 pins := by
  have hdrop : Evolves careful c pins _ pins := dropUnwanted_evolves hs
  have hwanted := fun r => beginNext_eq (c := c) (r := r)
  unfold beginNext at hwanted ⊢
  split
  case h_1 heq =>
    rw [heq] at hdrop
    exact hdrop
  case h_2 request queue heq =>
  rw [heq] at hdrop hwanted
  obtain ⟨hknown, hqueued⟩ := isWanted_iff.mp (hwanted request rfl).1
  refine hdrop.trans (.of_step request.key hs rfl (fun accepted => ?_) fun accepted k hk => ?_)
  · let c₀ := { c with
      queue := queue, inFlight := Function.update c.inFlight request.key (some request.flight) }
    have hlife := life_modify (c := c₀) accepted
      (fun f => f.setState request.tier (.compiling request.tier)) hknown
    rw [withRecord_setState] at hlife
    have hflight : c₀.inFlight request.key = some request.flight := update_self ..
    refine (congrArg (Life.Step _ _ _ _) (hlife.trans ?_)).mpr (.begin
      (l := life { c with queue := request :: queue } accepted request.key) request
      (queue.filter fun r => r.key = request.key) filter_cons_self hqueued)
    exact Life.ext rfl rfl rfl rfl rfl rfl rfl hflight rfl rfl rfl rfl
  · refine life_frame ?_ rfl rfl (filter_cons_ne hk).symm (update_of_ne hk ..) rfl rfl
      fun _ _ => rfl
    exact (get?_modify ..).trans (if_neg (Ne.symm hk))

theorem rollback_evolves (hs : c.cache.Sound pins []) {request : CompileRequest}
    (hknown : c.inFlight request.key ≠ none → c.functions.contains request.key = true)
    (hsame : ∀ flight, c.inFlight request.key = some flight → flight.attemptId = request.attemptId →
      flight.tier = request.tier → flight = request.flight) :
    Evolves careful c pins (c.rollback request) pins := by
  unfold rollback
  split
  case isFalse => exact .refl hs
  case isTrue hmatch =>
  have hflight : c.inFlight request.key = some request.flight := by
    cases hf : c.inFlight request.key with
    | none => simp [hf] at hmatch
    | some flight =>
      simp only [hf, Option.any_some, Bool.and_eq_true, decide_eq_true_eq] at hmatch
      rw [hsame flight hf hmatch.1 hmatch.2]
  have hknown := hknown (by rw [hflight]; nofun)
  refine .of_step request.key hs rfl (fun accepted => ?_) fun accepted k hk => ?_
  · let c₀ := { c with
      queue := request :: c.queue, inFlight := Function.update c.inFlight request.key none }
    have hlife := life_modify (c := c₀) accepted
      (fun f => f.setState request.tier (.queued request.tier)) hknown
    rw [withRecord_setState] at hlife
    have hnone : c₀.inFlight request.key = none := update_self ..
    refine (congrArg (Life.Step _ _ _ _) (hlife.trans ?_)).mpr (.rollback
      (l := c.life accepted request.key) request rfl hflight)
    exact Life.ext rfl rfl rfl rfl rfl rfl filter_cons_self hnone rfl rfl rfl rfl
  · refine life_frame ?_ rfl rfl (filter_cons_ne hk) (update_of_ne hk ..) rfl rfl
      fun _ _ => rfl
    exact (get?_modify ..).trans (if_neg (Ne.symm hk))

/-! ## Failures and demotions -/

theorem failed_isResting (maxAttempts clock : Nat) (record : TierRecord) :
    (TierRecord.failed maxAttempts clock record).state.isResting = true := by
  unfold TierRecord.failed
  dsimp only
  split <;> rfl

/-- A record after a failure, as a life shows it. -/
theorem withRecord_setTier (l : Life) (f : FunctionState) (t : Tier) (record : TierRecord) :
    withRecord l (f.setTier t record) =
      { withRecord l f with state := Function.update (fun t => (f.tier t).state) t record.state } := by
  unfold withRecord
  rw [state_setTier, published_setTier, retired_setTier]

theorem modify_get?_ne {m : OrdMap FunctionKey FunctionState} (f : FunctionState → FunctionState)
    (hk : k ≠ key) : (m.modify key f).get? k = m.get? k :=
  (get?_modify ..).trans (if_neg (Ne.symm hk))

theorem setInstalled_self (t t' : Tier) (artifact : Option ArtifactKey) :
    (c.setInstalled key t artifact).installedKeys key t' =
      Function.update (c.installedKeys key) t artifact t' := by
  unfold setInstalled
  by_cases ht : t' = t
  · subst ht
    simp
  · simp [ht]

theorem setInstalled_ne (hk : k ≠ key) (t : Tier) (artifact : Option ArtifactKey) :
    (c.setInstalled key t artifact).installedKeys k = c.installedKeys k := by
  funext t'
  exact if_neg fun h => hk h.1

theorem rejectTier1_evolves (hs : c.cache.Sound pins []) (key : FunctionKey) (tier : Tier)
    (hcareful : careful → ∀ accepted, ¬ (c.life accepted key).Pending tier) :
    Evolves careful c pins (c.rejectTier1 key tier) pins := by
  have hadvance : Evolves careful c pins (c.advanceGeneration key) pins :=
    advanceGeneration_evolves hs key
  refine hadvance.trans (.of_step key hadvance.sound rfl (fun accepted => ?_) fun accepted k hk => ?_)
  · let c₁ := (c.advanceGeneration key).update key id
    have hknown₁ : c₁.functions.contains key = true := (contains_insert ..).trans (by simp)
    have hknown₂ : (c₁.recordFailure key tier).functions.contains key = true :=
      (contains_modify ..).trans hknown₁
    have hlife₁ : c₁.life accepted key = _ := life_update accepted id
    have hlife₂ : (c₁.recordFailure key tier).life accepted key = _ :=
      life_modify accepted _ hknown₁
    have hlife := life_modify (c := c₁.recordFailure key tier) accepted
      (fun f => f.setState tier .blacklisted) hknown₂
    have hrecord₁ : c₁.record key = (c.advanceGeneration key).record key := by
      rw [record_update, if_pos rfl]
      rfl
    have hrecord₂ : (c₁.recordFailure key tier).record key =
        (c₁.record key).setTier tier (TierRecord.failed c₁.maxAttempts c₁.clock
          ((c₁.record key).tier tier)) := by
      unfold recordFailure
      rw [record_modify, if_pos ⟨rfl, hknown₁⟩]
    rw [withRecord_setState, hrecord₂, hlife₂, state_setTier, update_idem,
      withRecord_setTier, hlife₁, hrecord₁] at hlife
    refine (congrArg (Life.Step _ _ _ _) (hlife.trans ?_)).mpr (.reject
      (l := (c.advanceGeneration key).life accepted key) tier fun hc hpending => ?_)
    · rfl
    · refine hcareful hc accepted ?_
      rw [advanceGeneration_life_self hs] at hpending
      exact hpending
  · refine life_frame ?_ rfl rfl rfl rfl rfl rfl fun _ _ => rfl
    refine (modify_get?_ne _ hk).trans ((modify_get?_ne _ hk).trans ?_)
    exact get?_insert_ne _ _ (Ne.symm hk)

/-- The life of a function with one tier taken down. -/
theorem uninstalled_life {f : FunctionState} {state : CompileState} {known : Bool} {p : Option Tier}
    (t : Tier) (hstate : (fun t => (f.tier t).state) =
      Function.update (fun t => ((c.record key).tier t).state) t state)
    (hretired : f.retired = (c.record key).retired) (hpublished : f.published = p) :
    { withRecord ((c.setInstalled key t none).life accepted key) f with known } =
      { c.life accepted key with
        known
        state := Function.update (c.life accepted key).state t state
        published := p
        installed := Function.update (c.life accepted key).installed t none } := by
  have hinstalled : (c.setInstalled key t none).installedKeys key =
      Function.update (c.installedKeys key) t none := funext fun _ => setInstalled_self ..
  exact Life.ext rfl hstate hpublished hretired rfl rfl rfl rfl hinstalled rfl rfl rfl

theorem published_of_baseline {f : FunctionState}
    (hbaseline : (c.installedKeys key .baseline).isSome = true) (h : f.published = some .baseline) :
    f.published = if (c.installedKeys key .baseline).isSome then some .baseline else none :=
  h.trans (if_pos hbaseline).symm

section

variable (hs : c.cache.Sound pins [])

include hs

theorem demoteUnprofitableOptimized_evolves (key : FunctionKey)
    (hcareful : careful → c.bothInstalled key = true →
      ∀ accepted, ¬ (c.life accepted key).Pending .optimizing) :
    Evolves careful c pins (c.demoteUnprofitableOptimized key).1 pins := by
  unfold demoteUnprofitableOptimized
  dsimp only
  split
  case isFalse => exact .of_life hs rfl fun _ _ => rfl
  case isTrue hboth =>
  have hbaseline := (Bool.and_eq_true_iff.mp hboth).1
  refine .of_step key hs rfl (fun accepted => ?_) fun accepted k hk => ?_
  · let c₀ := { c with lastBenefitTarget := none }
    have hlife : ((c₀.setInstalled key .optimizing none).update key _).life accepted key = _ :=
      life_update accepted fun f =>
        let attempts := satSuccU8 f.instabilityAttempts
        { f.setState .optimizing (.backoff attempts (retryAfter c.clock attempts)) with
          instabilityAttempts := attempts, published := some .baseline }
    have hdemoted := hlife.trans (uninstalled_life (c := c₀) .optimizing (state_setState ..)
      (retired_setState ..) (published_of_baseline hbaseline rfl))
    refine (congrArg (Life.Step _ _ _ _) hdemoted).mpr ?_
    exact .demote (l := c.life accepted key) _ rfl fun hc => hcareful hc hboth accepted
  · exact life_frame (get?_insert_ne _ _ (Ne.symm hk)) rfl rfl rfl rfl
      (setInstalled_ne hk _ _) rfl fun _ _ => rfl

theorem prepareStablePathRecompile_evolves (key : FunctionKey)
    (hknown : (c.installedKeys key .baseline).isSome → c.functions.contains key = true)
    (hcareful : careful → c.bothInstalled key = true →
      ∀ accepted, ¬ (c.life accepted key).Pending .optimizing) :
    Evolves careful c pins (c.prepareStablePathRecompile key).1 pins := by
  unfold prepareStablePathRecompile
  dsimp only
  split
  case isFalse => exact .of_life hs rfl fun _ _ => rfl
  case isTrue hboth =>
  have hbaseline := (Bool.and_eq_true_iff.mp hboth).1
  refine .of_step key hs rfl (fun accepted => ?_) fun accepted k hk => ?_
  · let c₀ := { c with lastBenefitTarget := none }
    have hlife := life_modify (c := c₀.setInstalled key .optimizing none) accepted
      (fun f => { f.setState .optimizing .cold with published := some .baseline }) (hknown hbaseline)
    have hdemoted := hlife.trans (uninstalled_life (c := c₀) .optimizing (state_setState ..)
      (retired_setState ..) (published_of_baseline hbaseline rfl))
    refine (congrArg (Life.Step _ _ _ _) (hdemoted.trans ?_)).mpr
      (.demote (l := c.life accepted key) .cold rfl fun hc => hcareful hc hboth accepted)
    exact Life.ext (hknown hbaseline) rfl rfl rfl rfl rfl rfl rfl rfl rfl rfl rfl
  · exact life_frame (modify_get?_ne _ hk) rfl rfl rfl rfl (setInstalled_ne hk _ _) rfl fun _ _ => rfl

theorem demoteUnstable_evolves (key : FunctionKey)
    (hcareful : careful → ∀ accepted, ¬ (c.life accepted key).Pending .optimizing) :
    Evolves careful c pins (c.demoteUnstable key) pins := by
  refine .of_step key hs rfl (fun accepted => ?_) fun accepted k hk => ?_
  · let c₀ := { c with lastBenefitTarget := none }
    let attempts := satSuccU8 (c.record key).instabilityAttempts
    let state : CompileState := if c.maxAttempts ≤ attempts then .blacklisted
      else .backoff attempts (retryAfter c.clock attempts)
    have hidle : state.isResting = true := by
      unfold state
      split <;> rfl
    have hlife : (c.demoteUnstable key).life accepted key = _ :=
      life_update (c := c₀.setInstalled key .optimizing none) accepted _
    have hpublished : (if ((c₀.setInstalled key .optimizing none).installedKeys key .baseline).isSome
        then some Tier.baseline else none) =
        if (c.installedKeys key .baseline).isSome then some .baseline else none := by
      rw [setInstalled_self, update_of_ne (by decide)]
    have hdemoted := hlife.trans (uninstalled_life (c := c₀) .optimizing (state_setState ..)
      (retired_setState ..) hpublished)
    refine (congrArg (Life.Step _ _ _ _) hdemoted).mpr ?_
    exact .demote (l := c.life accepted key) state hidle fun hc => hcareful hc accepted
  · exact life_frame (get?_insert_ne _ _ (Ne.symm hk)) rfl rfl rfl rfl
      (setInstalled_ne hk _ _) rfl fun _ _ => rfl

theorem recordOptimizedSideExitProfile_evolves (key : FunctionKey) (guard : Nat)
    (observed : Option ObservedType) (hcareful : careful → c.exitDemotes key guard observed = true →
      ∀ accepted, ¬ (c.life accepted key).Pending .optimizing) :
    Evolves careful c pins (c.recordOptimizedSideExitProfile key guard observed).1 pins := by
  have hnoted : Evolves careful c pins (c.noteExit key guard observed) pins :=
    .of_life hs rfl fun _ _ => rfl
  unfold recordOptimizedSideExitProfile
  dsimp only
  split
  case isTrue hdemotes =>
    exact hnoted.trans (demoteUnstable_evolves hnoted.sound key fun hc => hcareful hc hdemotes)
  case isFalse =>
    split
    · exact hnoted
    · exact hnoted

end

theorem demoteBaselineToInterpreter_evolves (hs : c.cache.Sound pins []) (key : FunctionKey) :
    Evolves careful c pins (c.demoteBaselineToInterpreter key).1 pins := by
  unfold demoteBaselineToInterpreter
  dsimp only
  split
  case isFalse => exact .of_life hs rfl fun _ _ => rfl
  case isTrue hinstalled =>
  refine .of_step key hs rfl (fun accepted => ?_) fun accepted k hk => ?_
  · let c₀ := { c with
      lastBenefitTarget := none
      profitabilityDemotions := Function.update c.profitabilityDemotions key true }
    let F : FunctionState → FunctionState := fun f =>
      let f := f.setState .baseline .blacklisted
      if f.published = some .baseline then { f with published := none } else f
    have hlife := life_modify (c := c₀.setInstalled key .baseline none) accepted F hinstalled.1
    have hfields : (fun t => ((F (c.record key)).tier t).state) =
        Function.update (fun t => ((c.record key).tier t).state) .baseline .blacklisted ∧
        (F (c.record key)).retired = (c.record key).retired ∧
        (F (c.record key)).published =
          if (c.record key).published = some .baseline then none else (c.record key).published := by
      unfold F
      dsimp only
      rw [published_setState]
      split
      · exact ⟨state_setState .., retired_setState .., rfl⟩
      · exact ⟨state_setState .., retired_setState .., published_setState ..⟩
    have hdropped := hlife.trans
      (uninstalled_life (c := c₀) .baseline hfields.1 hfields.2.1 hfields.2.2)
    refine (congrArg (Life.Step _ _ _ _) hdropped).mpr ?_
    exact .dropBaseline (l := c.life accepted key) _ rfl hinstalled.2
  · exact life_frame (modify_get?_ne _ hk) rfl rfl rfl rfl (setInstalled_ne hk _ _) rfl fun _ _ => rfl

theorem any_published_iff :
    (c.functions.get? key).any (fun f => f.published = some .baseline) = true ↔
      c.functions.contains key = true ∧ (c.record key).published = some .baseline := by
  unfold record OrdMap.contains
  cases c.functions.get? key <;> simp

theorem prepareBaselineDirectRefresh_evolves (hs : c.cache.Sound pins []) (key : FunctionKey) :
    Evolves careful c pins (c.prepareBaselineDirectRefresh key).1 pins := by
  unfold prepareBaselineDirectRefresh
  dsimp only
  split
  case isFalse => exact .of_life hs rfl fun _ _ => rfl
  case isTrue hrefresh =>
  obtain ⟨hpublished, hinstalled⟩ := hrefresh
  have hrecord := any_published_iff.mp hpublished
  refine .of_step key hs rfl (fun accepted => ?_) fun accepted k hk => ?_
  · let c₀ := { c with lastBenefitTarget := none }
    have hlife := life_modify (c := c₀.setInstalled key .baseline none) accepted
      (fun f => { f.setState .baseline .cold with published := none }) hrecord.1
    have hdropped := hlife.trans (uninstalled_life (c := c₀)
      (p := if (c.record key).published = some .baseline then none else (c.record key).published)
      .baseline (state_setState ..) (retired_setState ..) (if_pos hrecord.2).symm)
    refine (congrArg (Life.Step _ _ _ _) hdropped).mpr ?_
    exact .dropBaseline (l := c.life accepted key) _ rfl hinstalled
  · exact life_frame (modify_get?_ne _ hk) rfl rfl rfl rfl (setInstalled_ne hk _ _) rfl fun _ _ => rfl

end Coordinator

end QuickJit
