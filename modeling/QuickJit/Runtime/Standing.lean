import QuickJit.Runtime.SystemRuns

/-
  The standing of functions: retirement, generations, installed artifacts and
  the dependency graph.

  Most operations leave all of it alone, but for what they uninstall (`Quiet`).
  The others retire some functions (`Stands`) or install one artifact. Two facts
  about retired functions hold in every reachable state before a shutdown
  (`Grounded`): a retired function has a generation that was once current, and
  while it is still the current one its node in the dependency graph is invalid.
-/

namespace QuickJit

open Function

variable {cache : CodeCache} {completion : CompileCompletion} {op : CoordinatorOp} {t : Tier}

namespace Coordinator

variable {c c' c'' : Coordinator} {pins : List Address} {key k : FunctionKey} {tier : Tier}
  {gone gone' : FunctionKey → Prop}

/-! ## Operations that only take away -/

/-- `c'` is `c` with the functions `gone` retired, and perhaps some others
uninstalled. -/
structure Stands (c c' : Coordinator) (gone : FunctionKey → Prop) : Prop where
  retired : ∀ k, (c'.record k).retired = true → (c.record k).retired = true ∨ gone k
  installed : ∀ k t key, c'.installedKeys k t = some key →
    c.installedKeys k t = some key ∧ ¬ gone k
  artifact : ∀ key x, c'.cache.lookup key = some x →
    ∃ x', c.cache.lookup key = some x' ∧ x'.artifact = x.artifact

theorem Stands.trans (h : c.Stands c' gone) (h' : c'.Stands c'' gone') :
    c.Stands c'' fun k => gone k ∨ gone' k := by
  refine ⟨fun k hk => ?_, fun k t key hkey => ?_, fun key x hx => ?_⟩
  · rcases h'.retired k hk with hk | hk
    · exact (h.retired k hk).imp_right .inl
    · exact .inr (.inr hk)
  · obtain ⟨hkey', hgone'⟩ := h'.installed k t key hkey
    obtain ⟨hkey, hgone⟩ := h.installed k t key hkey'
    exact ⟨hkey, not_or.mpr ⟨hgone, hgone'⟩⟩
  · obtain ⟨x', hx', heq'⟩ := h'.artifact key x hx
    obtain ⟨x'', hx'', heq⟩ := h.artifact key x' hx'
    exact ⟨x'', hx'', heq.trans heq'⟩

/-- `c'` is `c`, perhaps with some functions uninstalled. -/
structure Quiet (c c' : Coordinator) : Prop where
  stands : c.Stands c' fun _ => False
  generations : c'.currentGenerations = c.currentGenerations
  dependencies : c'.dependencies = c.dependencies
  shutdown : c'.shutdown = c.shutdown

theorem Quiet.of_eq (hretired : ∀ k, (c'.record k).retired = (c.record k).retired)
    (hinstalled : ∀ k t key, c'.installedKeys k t = some key → c.installedKeys k t = some key)
    (hartifact : ∀ key, c'.cache.lookup key = c.cache.lookup key)
    (hgenerations : c'.currentGenerations = c.currentGenerations)
    (hdependencies : c'.dependencies = c.dependencies) (hshutdown : c'.shutdown = c.shutdown) :
    c.Quiet c' :=
  ⟨⟨fun k hk => .inl ((hretired k).symm.trans hk),
    fun k t key hkey => ⟨hinstalled k t key hkey, id⟩,
    fun key x hx => ⟨x, (hartifact key).symm.trans hx, rfl⟩⟩, hgenerations, hdependencies, hshutdown⟩

theorem Quiet.refl (c : Coordinator) : c.Quiet c :=
  .of_eq (fun _ => rfl) (fun _ _ _ h => h) (fun _ => rfl) rfl rfl rfl

theorem Quiet.trans (h : c.Quiet c') (h' : c'.Quiet c'') : c.Quiet c'' := by
  refine ⟨?_, h'.generations.trans h.generations, h'.dependencies.trans h.dependencies,
    h'.shutdown.trans h.shutdown⟩
  have hstands := h.stands.trans h'.stands
  exact ⟨fun k hk => (hstands.retired k hk).imp_right fun hor => hor.elim id id,
    fun k t key hkey => ⟨(hstands.installed k t key hkey).1, id⟩, hstands.artifact⟩

theorem retired_modify (c : Coordinator) (key : FunctionKey) (f : FunctionState → FunctionState)
    (hf : ∀ x, (f x).retired = x.retired) (k : FunctionKey) :
    (record { c with functions := c.functions.modify key f } k).retired = (c.record k).retired := by
  rw [record_modify]
  split
  · exact hf _
  · rfl

theorem retired_update (f : FunctionState → FunctionState) (hf : ∀ x, (f x).retired = x.retired)
    (k : FunctionKey) : ((c.update key f).record k).retired = (c.record k).retired := by
  rw [record_update]
  split
  · exact hf _
  · rfl

theorem installed_of_setInstalled {artifact : ArtifactKey}
    (h : (c.setInstalled key tier none).installedKeys k t = some artifact) :
    c.installedKeys k t = some artifact := by
  unfold setInstalled at h
  dsimp only at h
  split at h
  · cases h
  · exact h

/-- A piece that changes records, but not who is retired. -/
theorem Quiet.of_modify {f : FunctionState → FunctionState}
    (hfunctions : c'.functions = c.functions.modify key f) (hf : ∀ x, (f x).retired = x.retired)
    (hinstalled : ∀ k t key, c'.installedKeys k t = some key → c.installedKeys k t = some key)
    (hartifact : ∀ key, c'.cache.lookup key = c.cache.lookup key)
    (hgenerations : c'.currentGenerations = c.currentGenerations)
    (hdependencies : c'.dependencies = c.dependencies) (hshutdown : c'.shutdown = c.shutdown) :
    c.Quiet c' := by
  refine .of_eq (fun k => ?_) hinstalled hartifact hgenerations hdependencies hshutdown
  rw [← retired_modify c key f hf k]
  unfold record
  rw [hfunctions]

/-- Reclamation changes no artifact that stays. -/
theorem artifact_of_reclaimed {cache' : CodeCache} (h : cache.Reclaimed pins cache')
    {key : ArtifactKey} {x : Resident} (hx : cache'.lookup key = some x) :
    ∃ x', cache.lookup key = some x' ∧ x'.artifact = x.artifact := by
  rcases h.lookup key with hsame | ⟨hnone, -⟩
  · exact ⟨x, hsame.symm.trans hx, rfl⟩
  · cases hnone.symm.trans hx

theorem recordFailure_quiet (c : Coordinator) (key : FunctionKey) (tier : Tier) :
    c.Quiet (c.recordFailure key tier) :=
  .of_modify rfl (fun _ => retired_setTier ..) (fun _ _ _ h => h) (fun _ => rfl) rfl rfl rfl

/-! ## Retirement -/

theorem Stands.congr (h : c.Stands c' gone) (hiff : ∀ k, gone k ↔ gone' k) : c.Stands c' gone' :=
  ⟨fun k hk => (h.retired k hk).imp_right (hiff k).mp,
    fun k t key hkey => (h.installed k t key hkey).imp_right (mt (hiff k).mpr), h.artifact⟩

theorem retireState_stands (hs : c.cache.Sound pins []) (key : FunctionKey) :
    c.Stands (c.retireState key) (· = key) := by
  refine ⟨fun k hk => ?_, fun k t artifact h => ?_, fun artifact x hx => ?_⟩
  · by_cases hkey : k = key
    · exact .inr hkey
    · rw [record, retireState_get?_ne hkey] at hk
      exact .inl hk
  · have h : (if k = key then none else c.installedKeys k t) = some artifact := h
    split at h
    · cases h
    · exact ⟨h, ‹_›⟩
  · have hx : (c.cache.invalidateDeferred key).lookup artifact = some x := hx
    rw [CodeCache.lookup_invalidateDeferred hs] at hx
    split at hx
    · obtain ⟨x', hx', rfl⟩ := Option.map_eq_some_iff.mp hx
      exact ⟨x', hx', rfl⟩
    · exact ⟨x, hx, rfl⟩

theorem foldl_retireState_stands :
    ∀ (keys : List FunctionKey) {c : Coordinator}, c.cache.Sound pins [] →
      c.Stands (keys.foldl retireState c) (· ∈ keys)
  | [], c, _ => (Quiet.refl c).stands.congr fun _ => by simp
  | key :: keys, c, hs => by
    have htail := foldl_retireState_stands keys (c := c.retireState key) (hs.invalidateDeferred key)
    exact ((retireState_stands hs key).trans htail).congr fun _ => List.mem_cons.symm

/-- A newer generation, made the current one. -/
structure Advances (c : Coordinator) (key : FunctionKey) (c' : Coordinator) : Prop where
  newer : ∀ g, c.currentGenerations key.id = some g → g < key.generation
  stands : c.Stands c' (· ∈ c.olderGenerations key)
  generations : c'.currentGenerations =
    Function.update c.currentGenerations key.id (some key.generation)

theorem advanceGeneration_cases (hs : c.cache.Sound pins []) (key : FunctionKey) :
    c.advanceGeneration key = c ∨ c.Advances key (c.advanceGeneration key) := by
  unfold advanceGeneration
  split
  case isFalse => exact .inl rfl
  case isTrue hnewer =>
    have hgenerations := foldl_retireState_fixed Coordinator.currentGenerations (fun _ _ => rfl)
      (c.olderGenerations key) c
    have hstands := foldl_retireState_stands (c.olderGenerations key) hs
    refine .inr ⟨fun g hg => ?_, ⟨hstands.retired, hstands.installed, hstands.artifact⟩, ?_⟩
    · simpa [hg] using hnewer
    · show Function.update (Coordinator.currentGenerations _) _ _ = _
      exact congrArg (Function.update · key.id (some key.generation)) hgenerations

theorem advanceGeneration_installed (hs : c.cache.Sound pins []) {artifact : ArtifactKey}
    (h : (c.advanceGeneration key).installedKeys k t = some artifact) :
    c.installedKeys k t = some artifact := by
  rcases advanceGeneration_cases hs key with heq | hadvances
  · rwa [heq] at h
  · exact (hadvances.stands.installed k t artifact h).1

theorem advanceGeneration_dependencies (c : Coordinator) (key : FunctionKey) :
    (c.advanceGeneration key).dependencies = c.dependencies :=
  advanceGeneration_fixed Coordinator.dependencies (fun _ _ => rfl) (fun _ _ => rfl) c key

theorem advanceGeneration_shutdown (c : Coordinator) (key : FunctionKey) :
    (c.advanceGeneration key).shutdown = c.shutdown :=
  advanceGeneration_fixed Coordinator.shutdown (fun _ _ => rfl) (fun _ _ => rfl) c key

/-- A request leaves no trace, or it advances the generation and is quiet
otherwise. -/
theorem queueRequest_quiet (hs : c.cache.Sound pins []) (key : FunctionKey) (tier : Tier)
    (snapshot : VerifiedSnapshot) (feedback : FeedbackSnapshot) (sidePath : Option SidePathProfile)
    (targets : CallTargets) :
    (c.queueRequest key tier snapshot feedback sidePath targets).1 = c ∨
      (c.advanceGeneration key).Quiet
        (c.queueRequest key tier snapshot feedback sidePath targets).1 := by
  unfold queueRequest
  split
  case h_1 => exact .inl rfl
  case h_2 =>
  have hadvance : Evolves False c pins (c.advanceGeneration key) pins :=
    advanceGeneration_evolves hs key
  dsimp only
  refine .inr ?_
  split
  case isTrue => exact .refl _
  case isFalse =>
  split
  case h_1 => exact .refl _
  case h_2 attemptId _ =>
  obtain ⟨epochs, cache, hplan, -, hlookup, -⟩ :=
    planned_eq hadvance.sound attemptId key tier feedback.epoch sidePath targets
  rw [hplan]
  exact .of_eq (retired_update _ fun _ => retired_setState ..) (fun _ _ _ h => h) hlookup rfl rfl rfl

theorem rejectTier1_quiet (c : Coordinator) (key : FunctionKey) (tier : Tier) :
    (c.advanceGeneration key).Quiet (c.rejectTier1 key tier) := by
  have hknown : (c.advanceGeneration key).Quiet ((c.advanceGeneration key).update key id) :=
    .of_eq (retired_update _ fun _ => rfl) (fun _ _ _ h => h) (fun _ => rfl) rfl rfl rfl
  refine (hknown.trans (recordFailure_quiet _ key tier)).trans ?_
  exact .of_modify rfl (fun _ => retired_setState ..) (fun _ _ _ h => h) (fun _ => rfl) rfl rfl rfl

theorem shutDown_dependencies (c : Coordinator) : c.shutDown.dependencies = c.dependencies := by
  unfold shutDown
  split
  · rfl
  · exact foldl_retireState_fixed Coordinator.dependencies (fun _ _ => rfl) _ c.cleared

theorem shutDown_shutdown (c : Coordinator) : c.shutDown.shutdown = true := by
  unfold shutDown
  split
  · assumption
  · exact foldl_retireState_fixed Coordinator.shutdown (fun _ _ => rfl) _ c.cleared

/-! ## Completions -/

/-- A completion that installs nothing. -/
theorem complete_quiet [TypeSizes] (hs : c.cache.Sound pins [])
    (h : ∀ evicted, (c.complete completion).2 ≠ .installed evicted) :
    c.Quiet (c.complete completion).1 := by
  have hclear : c.Quiet { c with inFlight := Function.update c.inFlight completion.key none } :=
    .of_eq (fun _ => rfl) (fun _ _ _ h => h) (fun _ => rfl) rfl rfl rfl
  have hready : c.Quiet (c.ready completion c.cache c.dependencies) :=
    .of_modify rfl (fun _ => retired_setState ..) (fun _ _ _ h => h) (fun _ => rfl) rfl rfl rfl
  unfold complete at h ⊢
  split
  case h_1 => exact .refl c
  case h_2 flight hflight =>
  rw [hflight] at h
  dsimp only at h
  split
  case isFalse => exact .refl c
  case isTrue hexpected =>
  rw [if_pos hexpected] at h
  split
  case h_2 => exact hclear.trans (recordFailure_quiet ..)
  case h_1 artifact hresult =>
  rw [hresult] at h
  dsimp only at h
  split
  case isFalse => exact .refl c
  case isTrue hkey =>
  rw [if_pos hkey] at h
  unfold accept at h ⊢
  dsimp only at h ⊢
  split
  case h_1 => exact hclear.trans (recordFailure_quiet ..)
  case h_2 hepoch =>
  rw [hepoch] at h
  dsimp only at h
  split
  case h_1 => exact hready.trans (recordFailure_quiet ..)
  case h_2 hcurrent =>
  rw [hcurrent] at h
  dsimp only at h
  split
  case h_1 => exact hready.trans (recordFailure_quiet ..)
  case h_2 staged hstaged =>
  rw [hstaged] at h
  dsimp only at h
  unfold publish at h ⊢
  split
  case isFalse => exact hready.trans (recordFailure_quiet ..)
  case isTrue hpublishes =>
  rw [if_pos hpublishes] at h
  rcases CodeCache.insert_spec hs artifact with ⟨cache, e, heq, hrefused⟩ | ⟨cache, evicted, heq, -⟩
  · rw [heq]
    refine hready.trans (.trans ?_ (recordFailure_quiet ..))
    exact .of_eq (fun _ => rfl) (fun _ _ _ h => h) hrefused.lookup rfl rfl rfl
  · rw [heq] at h
    exact absurd rfl (h evicted)

theorem foldl_recordEviction_quiet :
    ∀ (evicted : List ArtifactKey) (c : Coordinator), c.Quiet (evicted.foldl recordEviction c)
  | [], c => .refl c
  | key :: evicted, c => by
    have hhead : c.Quiet (c.recordEviction key) := by
      refine .of_modify rfl (fun x => ?_) (fun k t artifact h => installed_of_setInstalled h)
        (fun _ => rfl) rfl rfl rfl
      split <;> rfl
    exact hhead.trans (foldl_recordEviction_quiet evicted _)

section

variable [TypeSizes] {completion : CompileCompletion} {flight : InFlight}
  {artifact : CompiledArtifact} {evicted : List ArtifactKey} {cache : CodeCache}
  {staged : DependencyGraph}

variable (h : c.Installs completion flight artifact evicted cache staged)

include h

theorem Installs.retired (hk : ((c.complete completion).1.record k).retired = true) :
    (c.record k).retired = true := by
  have hquiet := foldl_recordEviction_quiet evicted (c.ready completion cache staged)
  rw [h.complete_eq] at hk
  have hinstall := retired_modify (evicted.foldl recordEviction (c.ready completion cache staged))
    completion.key
    (fun f => { f.setTier completion.requestedTier ⟨.cold, 0⟩ with
      published := some completion.requestedTier }) (fun _ => retired_setTier ..) k
  have hready := (hquiet.stands.retired k (hinstall.symm.trans hk)).resolve_right id
  have hsame := retired_modify c completion.key
    (fun f => f.setState completion.requestedTier (.ready completion.requestedTier))
    (fun _ => retired_setState ..) k
  exact hsame.symm.trans hready

theorem Installs.generations :
    (c.complete completion).1.currentGenerations = c.currentGenerations := by
  rw [h.complete_eq]
  exact (foldl_recordEviction_quiet evicted (c.ready completion cache staged)).generations

theorem Installs.dependencies :
    (c.complete completion).1.dependencies = staged := by
  rw [h.complete_eq]
  exact (foldl_recordEviction_quiet evicted (c.ready completion cache staged)).dependencies

theorem Installs.cache_eq :
    (c.complete completion).1.cache = cache := by
  rw [h.complete_eq]
  exact foldl_recordEviction_fixed Coordinator.cache (fun _ _ => rfl) evicted _

/-- What is installed afterwards is the new artifact or was installed before. -/
theorem Installs.installed {key : ArtifactKey}
    (hkey : (c.complete completion).1.installedKeys k t = some key) :
    (k = completion.key ∧ t = completion.requestedTier ∧ key = artifact.key) ∨
      (¬ (k = completion.key ∧ t = completion.requestedTier) ∧ c.installedKeys k t = some key) := by
  rw [h.complete_eq] at hkey
  have hkey : (if k = completion.key ∧ t = completion.requestedTier then some artifact.key
    else (evicted.foldl recordEviction (c.ready completion cache staged)).installedKeys k t) =
      some key := hkey
  split at hkey
  case isTrue hself =>
    cases hkey
    exact .inl ⟨hself.1, hself.2, rfl⟩
  case isFalse hother =>
    have hquiet := foldl_recordEviction_quiet evicted (c.ready completion cache staged)
    exact .inr ⟨hother, (hquiet.stands.installed k t key hkey).1⟩

end

/-! ## Retired functions and the dependency graph -/

/-- What holds of generations, retirement and the graph before a shutdown. -/
structure Grounded (c : Coordinator) : Prop where
  /-- Retired functions and nodes with dependencies are of generations that were
  current at some time. -/
  aged : ∀ k, (c.record k).retired = true ∨ c.dependencies.recorded (.function k) ≠ [] →
    ∃ w, c.currentGenerations k.id = some w ∧ k.generation ≤ w
  /-- A retired function of the current generation has no valid node. -/
  buried : ∀ k, (c.record k).retired = true → c.isCurrentGeneration k = true →
    c.dependencies.isValid (.function k) = false

theorem isCurrentGeneration_iff :
    c.isCurrentGeneration k = true ↔ c.currentGenerations k.id = some k.generation := by
  unfold isCurrentGeneration
  rw [decide_eq_true_eq]

theorem isCurrentGeneration_congr (h : c'.currentGenerations = c.currentGenerations)
    (k : FunctionKey) : c'.isCurrentGeneration k = c.isCurrentGeneration k := by
  unfold isCurrentGeneration
  rw [h]

theorem Grounded.quiet (h : c.Grounded) (hq : c.Quiet c') : c'.Grounded := by
  have hretired : ∀ k, (c'.record k).retired = true → (c.record k).retired = true := fun k hk =>
    (hq.stands.retired k hk).resolve_right id
  refine ⟨fun k hk => ?_, fun k hk hcurrent => ?_⟩
  · rw [hq.generations]
    rw [hq.dependencies] at hk
    exact h.aged k (hk.imp_left (hretired k))
  · rw [hq.dependencies]
    rw [isCurrentGeneration_congr hq.generations] at hcurrent
    exact h.buried k (hretired k hk) hcurrent

theorem Grounded.advance (h : c.Grounded) (ha : c.Advances key c')
    (hdependencies : c'.dependencies = c.dependencies) : c'.Grounded := by
  have hself : c'.currentGenerations key.id = some key.generation := by
    rw [ha.generations, update_self]
  have hother : ∀ id, id ≠ key.id → c'.currentGenerations id = c.currentGenerations id := fun id hid => by
    rw [ha.generations, update_of_ne hid]
  -- the watermark only grows
  have hgrow : ∀ k : FunctionKey, (∃ w, c.currentGenerations k.id = some w ∧ k.generation ≤ w) →
      ∃ w, c'.currentGenerations k.id = some w ∧ k.generation ≤ w := by
    rintro k ⟨w, hw, hle⟩
    by_cases hid : k.id = key.id
    · rw [hid] at hw
      exact ⟨_, hid ▸ hself, hle.trans (ha.newer w hw).le⟩
    · exact ⟨w, (hother _ hid).trans hw, hle⟩
  refine ⟨fun k hk => ?_, fun k hk hcurrent => ?_⟩
  · rw [hdependencies] at hk
    rcases hk with hk | hk
    · rcases ha.stands.retired k hk with hk | hk
      · exact hgrow k (h.aged k (.inl hk))
      · obtain ⟨-, hid, hlt⟩ := mem_olderGenerations.mp hk
        exact ⟨_, hid ▸ hself, hlt.le⟩
    · exact hgrow k (h.aged k (.inr hk))
  · rw [hdependencies]
    rw [isCurrentGeneration_iff] at hcurrent
    rcases ha.stands.retired k hk with hk | hk
    · by_cases hid : k.id = key.id
      · -- the new generation was not retired, or it would have been current
        obtain ⟨w, hw, hle⟩ := h.aged k (.inl hk)
        rw [hid] at hw hcurrent
        have hlt := ha.newer w hw
        rw [hself, Option.some.injEq] at hcurrent
        omega
      · rw [hother _ hid] at hcurrent
        exact h.buried k hk (isCurrentGeneration_iff.mpr hcurrent)
    · obtain ⟨-, hid, hlt⟩ := mem_olderGenerations.mp hk
      rw [hid, hself, Option.some.injEq] at hcurrent
      omega

theorem Grounded.advanceGeneration (h : c.Grounded) (hs : c.cache.Sound pins []) (key : FunctionKey) :
    (c.advanceGeneration key).Grounded := by
  rcases advanceGeneration_cases hs key with heq | ha
  · rw [heq]
    exact h
  · exact h.advance ha (advanceGeneration_dependencies c key)

/-- The generation of a key that was advanced to is not newer than the current
one. -/
theorem advanceGeneration_watermark (c : Coordinator) (key : FunctionKey) :
    ∃ w, (c.advanceGeneration key).currentGenerations key.id = some w ∧ key.generation ≤ w := by
  unfold Coordinator.advanceGeneration
  split
  case isTrue => exact ⟨_, update_self .., Nat.le_refl _⟩
  case isFalse hnot =>
    cases hg : c.currentGenerations key.id with
    | none => simp [hg] at hnot
    | some g => exact ⟨g, rfl, by simpa [hg] using hnot⟩

theorem mem_retired (h : k ∈ c.retired key) :
    k = key ∨ .function k ∈ (c.dependencies.invalidate (.function key)).2 := by
  unfold Coordinator.retired at h
  dsimp only at h
  obtain ⟨d, hd, hfunction⟩ := List.mem_filterMap.mp h
  have hdk : d = .function k := by
    cases d with
    | function f => exact congrArg _ (Option.some.inj hfunction)
    | shape t => cases hfunction
    | prototype t => cases hfunction
  subst hdk
  split at hd
  · exact .inr hd
  · rcases List.mem_append.mp hd with hd | hd
    · exact .inr hd
    · rw [List.mem_singleton] at hd
      exact .inl (DependencyKey.function.inj hd)

/-- What `retire` does besides advancing the generation. -/
theorem retire_stands (hs : c.cache.Sound pins []) (key : FunctionKey) :
    (c.advanceGeneration key).Stands (c.retire key) (· ∈ (c.advanceGeneration key).retired key) ∧
      (c.retire key).currentGenerations = (c.advanceGeneration key).currentGenerations ∧
      (c.retire key).dependencies = (c.dependencies.invalidate (.function key)).1 ∧
      (c.retire key).shutdown = c.shutdown := by
  have hadvance : Evolves False c pins (c.advanceGeneration key) pins :=
    advanceGeneration_evolves hs key
  rw [retire_eq]
  let c₂ := { c.advanceGeneration key with
    dependencies := ((c.advanceGeneration key).dependencies.invalidate (.function key)).1 }
  have hstands := foldl_retireState_stands ((c.advanceGeneration key).retired key) (c := c₂)
    hadvance.sound
  refine ⟨⟨hstands.retired, hstands.installed, hstands.artifact⟩, ?_, ?_, ?_⟩
  · exact foldl_retireState_fixed Coordinator.currentGenerations (fun _ _ => rfl) _ c₂
  · refine (foldl_retireState_fixed Coordinator.dependencies (fun _ _ => rfl) _ c₂).trans ?_
    show ((c.advanceGeneration key).dependencies.invalidate (.function key)).1 = _
    rw [advanceGeneration_dependencies]
  · refine (foldl_retireState_fixed Coordinator.shutdown (fun _ _ => rfl) _ c₂).trans ?_
    exact advanceGeneration_shutdown c key

theorem Grounded.retire (h : c.Grounded) (hs : c.cache.Sound pins [])
    (hc : c.dependencies.Consistent) (key : FunctionKey) : (c.retire key).Grounded := by
  obtain ⟨hstands, hgenerations, hdependencies, -⟩ := retire_stands hs key
  have hspec := DependencyGraph.invalidate_spec hc (.function key)
  have hadvanced := h.advanceGeneration hs key
  have hgone : ∀ k ∈ (c.advanceGeneration key).retired key,
      k = key ∨ .function k ∈ (c.dependencies.invalidate (.function key)).2 := fun k hk => by
    rw [← advanceGeneration_dependencies c key]
    exact mem_retired hk
  refine ⟨fun k hk => ?_, fun k hk hcurrent => ?_⟩
  · rw [hgenerations]
    rw [hdependencies, hspec.recorded_eq, ← advanceGeneration_dependencies c key] at hk
    rcases hk with hk | hk
    · rcases hstands.retired k hk with hk | hk
      · exact hadvanced.aged k (.inl hk)
      · rcases hgone k hk with rfl | hk
        · exact advanceGeneration_watermark c k
        · -- the last edge of the path to a dependent is recorded at its node
          rcases Relation.ReflTransGen.cases_tail (hspec.reachable _ hk) with heq | ⟨b, -, hedge⟩
          · cases heq
            exact advanceGeneration_watermark c key
          · refine hadvanced.aged k (.inr (List.ne_nil_of_mem (a := b) ?_))
            rw [advanceGeneration_dependencies]
            exact hedge
    · exact hadvanced.aged k (.inr hk)
  · rw [hdependencies]
    rw [isCurrentGeneration_congr hgenerations] at hcurrent
    rcases hstands.retired k hk with hk | hk
    · have hinvalid := hadvanced.buried k hk hcurrent
      rw [advanceGeneration_dependencies] at hinvalid
      rw [hspec.isValid_eq, hinvalid, Bool.false_and]
    · rcases hgone k hk with rfl | hk
      · exact hspec.isValid_root
      · rw [hspec.isValid_eq, decide_eq_false (not_not.mpr hk), Bool.and_false]

theorem Grounded.installs [TypeSizes] {flight : InFlight} {artifact : CompiledArtifact}
    {evicted : List ArtifactKey} {staged : DependencyGraph} (h : c.Grounded)
    (hi : c.Installs completion flight artifact evicted cache staged)
    (hlive : (c.record completion.key).retired = false) :
    (c.complete completion).1.Grounded := by
  have hstaged := DependencyGraph.install_eq_ok hi.staged_eq
  have hcurrent := (isExpected_iff.mp hi.expected).1
  have hne : ∀ {k}, k ≠ completion.key → DependencyKey.function k ≠ .function completion.key :=
    fun hk heq => hk (DependencyKey.function.inj heq)
  refine ⟨fun k hk => ?_, fun k hk hcurrent' => ?_⟩
  · rw [hi.generations]
    by_cases hself : k = completion.key
    · subst hself
      exact ⟨_, isCurrentGeneration_iff.mp hcurrent, Nat.le_refl _⟩
    · rw [hi.dependencies, hstaged.recorded_ne (hne hself)] at hk
      exact h.aged k (hk.imp_left hi.retired)
  · have hk := hi.retired hk
    have hself : k ≠ completion.key := fun heq => by
      rw [heq, hlive] at hk
      cases hk
    rw [hi.dependencies, hstaged.isValid_ne (hne hself)]
    rw [isCurrentGeneration_congr hi.generations] at hcurrent'
    exact h.buried k hk hcurrent'

end Coordinator

/-- Whether an operation neither retires nor installs anything. -/
def CoordinatorOp.isQuiet : CoordinatorOp → Bool
  | .queue .. | .queueSidePath .. | .complete .. | .rejectTier1 .. | .retire .. | .shutDown => false
  | _ => true

namespace JitSystem

open Coordinator

variable {s : JitSystem}

theorem step_quiet [TypeSizes] (h : s.Ok) (hop : op.isQuiet = true) :
    s.coordinator.Quiet (s.step op).coordinator := by
  have hsame : ∀ k t key, s.coordinator.installedKeys k t = some key →
      s.coordinator.installedKeys k t = some key := fun _ _ _ h => h
  by_cases huses : usesCode op = true
  · obtain ⟨cache, versions, heq, hlookup⟩ := step_usesCode h huses
    rw [heq]
    exact .of_eq (fun _ => rfl) hsame hlookup rfl rfl rfl
  cases op with
  | queue | queueSidePath | complete | rejectTier1 | retire | shutDown => cases hop
  | prioritize key tier =>
    unfold step prioritize
    dsimp only
    split <;> exact .of_eq (fun _ => rfl) hsame (fun _ => rfl) rfl rfl rfl
  | beginNext =>
    unfold step beginNext
    dsimp only
    split
    · exact .of_eq (fun _ => rfl) hsame (fun _ => rfl) rfl rfl rfl
    · exact .of_modify rfl (fun _ => retired_setState ..) hsame (fun _ => rfl) rfl rfl rfl
  | rollback index =>
    unfold step
    dsimp only
    split
    · unfold Coordinator.rollback
      split
      · exact .of_modify rfl (fun _ => retired_setState ..) hsame (fun _ => rfl) rfl rfl rfl
      · exact .refl _
    · exact .refl _
  | demoteBaselineToInterpreter key =>
    unfold step demoteBaselineToInterpreter
    dsimp only
    split
    · refine .of_modify rfl (fun x => ?_) (fun k t key h => installed_of_setInstalled h) (fun _ => rfl)
        rfl rfl rfl
      split <;> exact retired_setState ..
    · exact .of_eq (fun _ => rfl) hsame (fun _ => rfl) rfl rfl rfl
  | prepareBaselineDirectRefresh key =>
    unfold step prepareBaselineDirectRefresh
    dsimp only
    split
    · exact .of_modify rfl (fun _ => retired_setState ..) (fun k t key h => installed_of_setInstalled h)
        (fun _ => rfl) rfl rfl rfl
    · exact .of_eq (fun _ => rfl) hsame (fun _ => rfl) rfl rfl rfl
  | demoteUnprofitableOptimized key =>
    unfold step demoteUnprofitableOptimized
    dsimp only
    split
    · exact .of_eq (retired_update _ fun _ => retired_setState ..)
        (fun k t key h => installed_of_setInstalled h) (fun _ => rfl) rfl rfl rfl
    · exact .of_eq (fun _ => rfl) hsame (fun _ => rfl) rfl rfl rfl
  | prepareStablePathRecompile key =>
    unfold step prepareStablePathRecompile
    dsimp only
    split
    · exact .of_modify rfl (fun _ => retired_setState ..) (fun k t key h => installed_of_setInstalled h)
        (fun _ => rfl) rfl rfl rfl
    · exact .of_eq (fun _ => rfl) hsame (fun _ => rfl) rfl rfl rfl
  | recordOptimizedSideExitProfile key guard observed =>
    unfold step recordOptimizedSideExitProfile
    dsimp only
    split
    · exact .of_eq (retired_update _ fun _ => retired_setState ..)
        (fun k t key h => installed_of_setInstalled h) (fun _ => rfl) rfl rfl rfl
    · split <;> exact .of_eq (fun _ => rfl) hsame (fun _ => rfl) rfl rfl rfl
  | recordBenefit key tier savedNs =>
    unfold step recordBenefit
    dsimp only
    split
    · exact .refl _
    · exact .of_eq (fun _ => rfl) hsame (fun _ => CodeCache.lookup_recordBenefit ..) rfl rfl rfl
  | registerCallSpecialization | resolveCompiledCallTarget | pin | dropPin =>
    exact absurd rfl huses
  | pollReclamation budget =>
    have hreclaimed := CodeCache.pollReclamationWithBudget_reclaimed h.sound budget
    exact ⟨⟨fun _ hk => .inl hk, fun _ _ _ hkey => ⟨hkey, id⟩, fun _ _ => artifact_of_reclaimed hreclaimed⟩, rfl, rfl, rfl⟩
  | advanceClock now => exact .of_eq (fun _ => rfl) hsame (fun _ => rfl) rfl rfl rfl

/-- What is installed after an operation was so before, or the operation is the
completion that installed it. -/
theorem step_installed [TypeSizes] (h : s.Ok) {k : FunctionKey} {key : ArtifactKey}
    (hi : (s.step op).coordinator.installedKeys k t = some key) :
    s.coordinator.installedKeys k t = some key ∨
      ∃ completion evicted, op = .complete completion ∧ completion.key = k ∧
        completion.requestedTier = t ∧ (s.coordinator.complete completion).2 = .installed evicted := by
  have hs := h.sound
  have hqueue : ∀ {key' tier snapshot feedback sidePath targets},
      (s.coordinator.queueRequest key' tier snapshot feedback sidePath targets).1.installedKeys k t =
        some key → s.coordinator.installedKeys k t = some key := by
    intro key' tier snapshot feedback sidePath targets hi
    rcases queueRequest_quiet hs key' tier snapshot feedback sidePath targets with heq | hq
    · rwa [heq] at hi
    · exact advanceGeneration_installed hs (hq.stands.installed k t key hi).1
  by_cases hop : op.isQuiet = true
  · exact .inl ((step_quiet h hop).stands.installed k t key hi).1
  cases op with
  | queue key' tier snapshot feedback targets => exact .inl (hqueue hi)
  | queueSidePath key' snapshot feedback profile =>
    unfold step Coordinator.queueSidePath at hi
    dsimp only at hi
    split at hi
    · exact .inl (hqueue hi)
    · exact .inl hi
  | complete completion =>
    by_cases hinstalled : ∃ evicted, (s.coordinator.complete completion).2 = .installed evicted
    · obtain ⟨evicted, hinstalled⟩ := hinstalled
      obtain ⟨flight, artifact, cache, staged, hinstalls⟩ := complete_eq_installed hinstalled
      rcases hinstalls.installed hi with ⟨rfl, rfl, -⟩ | ⟨-, hbefore⟩
      · exact .inr ⟨completion, evicted, rfl, rfl, rfl, hinstalled⟩
      · exact .inl hbefore
    · have hq := complete_quiet hs fun evicted heq => hinstalled ⟨evicted, heq⟩
      exact .inl (hq.stands.installed k t key hi).1
  | rejectTier1 key' tier =>
    have hq := rejectTier1_quiet s.coordinator key' tier
    exact .inl (advanceGeneration_installed hs (hq.stands.installed k t key hi).1)
  | retire key' =>
    obtain ⟨hstands, -⟩ := retire_stands hs key'
    exact .inl (advanceGeneration_installed hs (hstands.installed k t key hi).1)
  | shutDown =>
    have hlive := ((step_ok s .shutDown h).life k).live
      (Life.engaged_of_installed (l := (s.step .shutDown).life k) hi)
    cases hlive.shutdown.symm.trans (shutDown_shutdown s.coordinator)
  | _ => exact absurd rfl hop

/-! ## Runs -/

/-- What every reachable system satisfies. -/
structure Founded (s : JitSystem) : Prop where
  ok : s.Ok
  consistent : s.coordinator.dependencies.Consistent
  grounded : s.coordinator.shutdown = false → s.coordinator.Grounded

/-- Every operation keeps the two directions of the graph in agreement, and what
is known of retired functions. -/
theorem step_grounded [TypeSizes] (h : s.Founded) (op : CoordinatorOp) :
    (s.step op).coordinator.dependencies.Consistent ∧
      ((s.step op).coordinator.shutdown = false → (s.step op).coordinator.Grounded) := by
  have hs := h.ok.sound
  -- a quiet piece after the generation was advanced
  have hadvanced : ∀ {c key}, (s.coordinator.advanceGeneration key).Quiet c →
      c.dependencies.Consistent ∧ (c.shutdown = false → c.Grounded) := by
    intro c key hq
    rw [hq.dependencies, hq.shutdown, advanceGeneration_dependencies, advanceGeneration_shutdown]
    exact ⟨h.consistent, fun hd => ((h.grounded hd).advanceGeneration hs key).quiet hq⟩
  have hqueue : ∀ {key tier snapshot feedback sidePath targets},
      (s.coordinator.queueRequest key tier snapshot feedback sidePath targets).1.dependencies.Consistent ∧
        ((s.coordinator.queueRequest key tier snapshot feedback sidePath targets).1.shutdown = false →
          (s.coordinator.queueRequest key tier snapshot feedback sidePath targets).1.Grounded) := by
    intro key tier snapshot feedback sidePath targets
    rcases queueRequest_quiet hs key tier snapshot feedback sidePath targets with heq | hq
    · rw [heq]
      exact ⟨h.consistent, h.grounded⟩
    · exact hadvanced hq
  by_cases hop : op.isQuiet = true
  · have hq := step_quiet h.ok hop
    rw [hq.dependencies, hq.shutdown]
    exact ⟨h.consistent, fun hd => (h.grounded hd).quiet hq⟩
  cases op with
  | queue key tier snapshot feedback targets => exact hqueue
  | queueSidePath key snapshot feedback profile =>
    unfold step Coordinator.queueSidePath
    dsimp only
    split
    · exact hqueue
    · exact ⟨h.consistent, h.grounded⟩
  | complete completion =>
    show (s.coordinator.complete completion).1.dependencies.Consistent ∧ _
    by_cases hinstalled : ∃ evicted, (s.coordinator.complete completion).2 = .installed evicted
    · obtain ⟨evicted, hinstalled⟩ := hinstalled
      obtain ⟨flight, artifact, cache, staged, hi⟩ := complete_eq_installed hinstalled
      have hlive := (h.ok.life completion.key).live (Life.engaged_of_flight hi.flight_eq)
      refine ⟨?_, fun _ => (h.grounded hlive.shutdown).installs hi hlive.retired⟩
      rw [hi.dependencies]
      exact (DependencyGraph.install_eq_ok hi.staged_eq).consistent h.consistent
    · have hq := complete_quiet hs fun evicted heq => hinstalled ⟨evicted, heq⟩
      rw [hq.dependencies]
      exact ⟨h.consistent, fun hd => (h.grounded (hq.shutdown.symm.trans hd)).quiet hq⟩
  | rejectTier1 key tier => exact hadvanced (rejectTier1_quiet _ key tier)
  | retire key =>
    obtain ⟨-, -, hdependencies, hshutdown⟩ := retire_stands hs key
    show (s.coordinator.retire key).dependencies.Consistent ∧ _
    rw [hdependencies]
    refine ⟨(DependencyGraph.invalidate_spec h.consistent _).consistent h.consistent, fun hd => ?_⟩
    exact (h.grounded (hshutdown.symm.trans hd)).retire hs h.consistent key
  | shutDown =>
    show s.coordinator.shutDown.dependencies.Consistent ∧ _
    rw [shutDown_dependencies]
    exact ⟨h.consistent, fun hd => nomatch (shutDown_shutdown s.coordinator).symm.trans hd⟩
  | _ => exact absurd rfl hop

theorem step_founded [TypeSizes] (s : JitSystem) (op : CoordinatorOp) (h : s.Founded) :
    (s.step op).Founded :=
  ⟨step_ok s op h.ok, (step_grounded h op).1, (step_grounded h op).2⟩

theorem reachable_founded [TypeSizes] (maxQueueLen maxAttempts : Nat) (limits : CacheLimits)
    (environment : ArtifactEnvironment) (ops : List CoordinatorOp) :
    (runs step (start maxQueueLen maxAttempts limits environment) ops).Founded := by
  refine runs_inv step_founded ⟨start_ok, DependencyGraph.empty_consistent, fun _ => ⟨?_, ?_⟩⟩ ops
  · rintro k (hk | hk)
    · cases hk
    · exact absurd rfl hk
  · intro k hk
    cases hk

end JitSystem

end QuickJit
