import QuickJit.Runtime.Standing

/-
  Installed artifacts and what they depend on.

  Dependencies are recorded per function, with its last installation, and only
  `retire` follows them. So no installed artifact depends on a dead function as
  long as no newer generation of a dependency is introduced and an artifact of
  one tier lists what the installed artifact of the other tier depends on
  (`respectful_no_dead_dependency`). Otherwise it may: a request for a newer
  generation retires the older one and leaves its dependents installed, and
  the second tier of a function makes the graph forget what the first depends on
  (`dead_dependency_installed`).
-/

namespace QuickJit

namespace Coordinator

/-- The artifact installed for `k` and `t` depends on `d`. -/
def Relies (c : Coordinator) (k : FunctionKey) (t : Tier) (d : FunctionKey) : Prop :=
  ∃ key x, c.installedKeys k t = some key ∧ c.cache.lookup key = some x ∧ d ∈ x.artifact.dependencies

/-- Everything installed artifacts depend on is unretired, of the current
generation and valid in the graph. -/
def NoDeadDependency (c : Coordinator) : Prop :=
  ∀ k t d, c.Relies k t d → (c.record d).retired = false ∧ c.isCurrentGeneration d = true ∧
    c.dependencies.isValid (.function d) = true

/-- The graph records what installed artifacts depend on. -/
def Tied (c : Coordinator) : Prop :=
  ∀ k t d, c.Relies k t d → c.dependencies.DependsOn (.function k) (.function d)

variable {c c' : Coordinator} {gone : FunctionKey → Prop} {k d key : FunctionKey} {t : Tier}

theorem Stands.relies (h : c.Stands c' gone) (hr : c'.Relies k t d) : c.Relies k t d ∧ ¬ gone k := by
  obtain ⟨key, x, hkey, hx, hd⟩ := hr
  obtain ⟨hkey, hgone⟩ := h.installed k t key hkey
  obtain ⟨x', hx', heq⟩ := h.artifact key x hx
  exact ⟨⟨key, x', hkey, hx', heq ▸ hd⟩, hgone⟩

theorem retired_eq_false {lost : Prop}
    (h : (c'.record d).retired = true → (c.record d).retired = true ∨ lost)
    (hd : (c.record d).retired = false) (hlost : ¬ lost) : (c'.record d).retired = false := by
  cases hr : (c'.record d).retired with
  | false => rfl
  | true =>
    rcases h hr with hr | hr
    · cases hd.symm.trans hr
    · exact absurd hr hlost

theorem NoDeadDependency.quiet (h : c.NoDeadDependency) (hq : c.Quiet c') : c'.NoDeadDependency := by
  intro k t d hr
  obtain ⟨hretired, hcurrent, hvalid⟩ := h k t d (hq.stands.relies hr).1
  rw [isCurrentGeneration_congr hq.generations, hq.dependencies]
  exact ⟨retired_eq_false (hq.stands.retired d) hretired id, hcurrent, hvalid⟩

theorem Tied.quiet (h : c.Tied) (hq : c.Quiet c') : c'.Tied := by
  intro k t d hr
  rw [hq.dependencies]
  exact h k t d (hq.stands.relies hr).1

/-- No installed artifact depends on an older generation of `key`. -/
def Unsuperseded (c : Coordinator) (key : FunctionKey) : Prop :=
  ∀ k t d, c.Relies k t d → d.id = key.id → key.generation ≤ d.generation

theorem NoDeadDependency.advanceGeneration {pins : List Address} (h : c.NoDeadDependency)
    (hs : c.cache.Sound pins []) (hkey : c.Unsuperseded key) :
    (c.advanceGeneration key).NoDeadDependency := by
  rcases advanceGeneration_cases hs key with heq | ha
  · rw [heq]
    exact h
  intro k t d hr
  have hr := (ha.stands.relies hr).1
  obtain ⟨hretired, hcurrent, hvalid⟩ := h k t d hr
  rw [advanceGeneration_dependencies]
  have hid : d.id ≠ key.id := fun hid => by
    have hle := hkey k t d hr hid
    have hlt := ha.newer d.generation (hid ▸ isCurrentGeneration_iff.mp hcurrent)
    omega
  refine ⟨retired_eq_false (ha.stands.retired d) hretired fun hold => ?_, ?_, hvalid⟩
  · exact hid (mem_olderGenerations.mp hold).2.1
  · rw [isCurrentGeneration_iff, ha.generations, Function.update_of_ne hid]
    exact isCurrentGeneration_iff.mp hcurrent

theorem Tied.advanceGeneration {pins : List Address} (h : c.Tied) (hs : c.cache.Sound pins [])
    (key : FunctionKey) : (c.advanceGeneration key).Tied := by
  rcases advanceGeneration_cases hs key with heq | ha
  · rw [heq]
    exact h
  intro k t d hr
  rw [advanceGeneration_dependencies]
  exact h k t d (ha.stands.relies hr).1

/-- Retirement takes the dependents of what it retires. -/
theorem NoDeadDependency.retire {pins : List Address} (h : c.NoDeadDependency) (ht : c.Tied)
    (hs : c.cache.Sound pins []) (hc : c.dependencies.Consistent) (hkey : c.Unsuperseded key) :
    (c.retire key).NoDeadDependency ∧ (c.retire key).Tied := by
  obtain ⟨hstands, hgenerations, hdependencies, -⟩ := retire_stands hs key
  have hspec := DependencyGraph.invalidate_spec hc (.function key)
  have hadvanced := h.advanceGeneration hs hkey
  have htied := ht.advanceGeneration hs key
  refine ⟨fun k t d hr => ?_, fun k t d hr => ?_⟩
  · obtain ⟨hr, hstays⟩ := hstands.relies hr
    obtain ⟨hretired, hcurrent, hvalid⟩ := hadvanced k t d hr
    have hedge := htied k t d hr
    rw [advanceGeneration_dependencies] at hvalid hedge
    -- the dependent would be retired with the dependency
    have hlist : ∀ {b}, b = .function key ∨ b ∈ (c.dependencies.invalidate (.function key)).2 →
        b ≠ .function d := by
      rintro b hb rfl
      refine hstays (mem_retired_of_invalidated ?_)
      rw [advanceGeneration_dependencies]
      exact hspec.closed _ _ hb.symm hedge
    rw [isCurrentGeneration_congr hgenerations, hdependencies, hspec.isValid_eq, hvalid, Bool.true_and,
      decide_eq_true_eq]
    refine ⟨retired_eq_false (hstands.retired d) hretired fun hgone => ?_, hcurrent,
      fun hmem => hlist (.inr hmem) rfl⟩
    rcases mem_retired hgone with rfl | hmem
    · exact hlist (.inl rfl) rfl
    · rw [advanceGeneration_dependencies] at hmem
      exact hlist (.inr hmem) rfl
  · have hedge := htied k t d (hstands.relies hr).1
    rw [advanceGeneration_dependencies] at hedge
    rw [hdependencies, DependencyGraph.DependsOn, hspec.recorded_eq]
    exact hedge

/-- The other tier's artifact depends on nothing that the completed one does not
list. -/
def Covers (c : Coordinator) (completion : CompileCompletion) (artifact : CompiledArtifact) : Prop :=
  ∀ t d, t ≠ completion.requestedTier → c.Relies completion.key t d → d ∈ artifact.dependencies

end Coordinator

namespace JitSystem

open Coordinator

variable {s : JitSystem}

section

variable [TypeSizes] {completion : CompileCompletion} {flight : InFlight}
  {artifact : CompiledArtifact} {evicted : List ArtifactKey} {cache : CodeCache}
  {staged : DependencyGraph} {k d : FunctionKey} {t : Tier}

/-- What an installed artifact depends on after an installation: it is the new
artifact, or another one that was there before. -/
theorem Ok.relies_of_installs (h : s.Ok)
    (hi : s.coordinator.Installs completion flight artifact evicted cache staged)
    (hr : (s.coordinator.complete completion).1.Relies k t d) :
    (k = completion.key ∧ d ∈ artifact.dependencies) ∨
      (¬ (k = completion.key ∧ t = completion.requestedTier) ∧ s.coordinator.Relies k t d) := by
  have hinserted := hi.inserted h.sound
  obtain ⟨key, x, hkey, hx, hd⟩ := hr
  rw [hi.cache_eq, hinserted.lookup h.sound] at hx
  rcases hi.installed hkey with ⟨rfl, -, rfl⟩ | ⟨hother, hkey⟩
  · rw [if_pos rfl] at hx
    cases hx
    exact .inl ⟨rfl, hd⟩
  · have hne : key ≠ artifact.key := fun heq => by
      -- the key tells the function and the tier
      obtain ⟨hfor, -⟩ := h.lookup hkey
      obtain ⟨-, -, -, -, htier, hartifact⟩ := isExpected_iff.mp hi.expected
      have hflight := (h.life completion.key).flight flight hi.flight_eq
      have hsame : key = flight.artifactKey := (heq.trans hi.key_eq).trans hartifact.symm
      rw [hsame] at hfor
      exact hother ⟨hfor.function_eq.symm.trans hflight.function_eq,
        (hfor.tier_eq.symm.trans hflight.tier_eq).trans htier⟩
    rw [if_neg hne] at hx
    split at hx
    · cases hx
    · exact .inr ⟨hother, key, x, hkey, hx, hd⟩

theorem Founded.noDeadDependency_of_installs (h : s.Founded) (hn : s.coordinator.NoDeadDependency)
    (hi : s.coordinator.Installs completion flight artifact evicted cache staged) :
    (s.coordinator.complete completion).1.NoDeadDependency := by
  have hstaged := DependencyGraph.install_eq_ok hi.staged_eq
  have hlive := (h.ok.life completion.key).live (Life.engaged_of_flight hi.flight_eq)
  have hkeep : ∀ {d}, s.coordinator.dependencies.isValid (.function d) = true →
      staged.isValid (.function d) = true := fun {d} hd => by
    by_cases hself : DependencyKey.function d = .function completion.key
    · rw [hself]
      exact hstaged.isValid_self
    · rw [hstaged.isValid_ne hself]
      exact hd
  intro k t d hr
  rw [isCurrentGeneration_congr hi.generations, hi.dependencies]
  have hold : (s.coordinator.record d).retired = false ∧ s.coordinator.isCurrentGeneration d = true ∧
      s.coordinator.dependencies.isValid (.function d) = true := by
    rcases h.ok.relies_of_installs hi hr with ⟨-, hd⟩ | ⟨-, hr⟩
    · have hcurrent := hi.current d hd
      have hvalid := hstaged.valid (.function d) (List.mem_map_of_mem hd)
      refine ⟨?_, hcurrent, hvalid⟩
      cases hretired : (s.coordinator.record d).retired with
      | false => rfl
      | true => cases ((h.grounded hlive.shutdown).buried d hretired hcurrent).symm.trans hvalid
    · exact hn k t d hr
  exact ⟨retired_eq_false (fun hd => .inl (hi.retired hd)) hold.1 id, hold.2.1, hkeep hold.2.2⟩

theorem Founded.tied_of_installs (h : s.Founded) (ht : s.coordinator.Tied)
    (hi : s.coordinator.Installs completion flight artifact evicted cache staged)
    (hcovers : s.coordinator.Covers completion artifact) :
    (s.coordinator.complete completion).1.Tied := by
  have hstaged := DependencyGraph.install_eq_ok hi.staged_eq
  intro k t d hr
  rw [hi.dependencies, DependencyGraph.DependsOn]
  have hself : d ∈ artifact.dependencies →
      DependencyKey.function d ∈ staged.recorded (.function completion.key) := fun hd =>
    (hstaged.recorded_self _).mpr (List.mem_map_of_mem hd)
  rcases h.ok.relies_of_installs hi hr with ⟨rfl, hd⟩ | ⟨hother, hr⟩
  · exact hself hd
  · by_cases hk : k = completion.key
    · subst hk
      exact hself (hcovers t d (fun htier => hother ⟨rfl, htier⟩) hr)
    · rw [hstaged.recorded_ne fun heq => hk (DependencyKey.function.inj heq)]
      exact ht k t d hr

end

/-- The operation introduces no newer generation of what an installed artifact
depends on, and installs no artifact that leaves out a dependency of the other
tier's. A request that fails its checks introduces nothing. -/
def Respectful [TypeSizes] (s : JitSystem) : CoordinatorOp → Prop
  | .queue key tier snapshot _ _ =>
    s.coordinator.checkRequest key tier snapshot.snapshot none = .ok () →
      s.coordinator.Unsuperseded key
  | .queueSidePath key snapshot feedback profile =>
    s.coordinator.sidePathAllowed key feedback profile = true →
      s.coordinator.checkRequest key .optimizing snapshot.snapshot (some profile) = .ok () →
        s.coordinator.Unsuperseded key
  | .rejectTier1 key _ | .retire key => s.coordinator.Unsuperseded key
  | .complete completion => ∀ artifact evicted, completion.result = .ok artifact →
    (s.coordinator.complete completion).2 = .installed evicted →
      s.coordinator.Covers completion artifact
  | _ => True

/-- What respectful operations keep. -/
structure Sheltered (s : JitSystem) : Prop where
  founded : s.Founded
  noDeadDependency : s.coordinator.NoDeadDependency
  tied : s.coordinator.Tied

/-- After a shutdown nothing is installed. -/
theorem not_relies_shutDown [TypeSizes] (h : s.Ok) {k d : FunctionKey} {t : Tier} :
    ¬ s.coordinator.shutDown.Relies k t d := by
  rintro ⟨key, x, hkey, -⟩
  have hok := step_ok s .shutDown h
  have hlive := (hok.life k).live (Life.engaged_of_installed hkey)
  cases hlive.shutdown.symm.trans (shutDown_shutdown s.coordinator)

theorem step_sheltered [TypeSizes] (s : JitSystem) (op : CoordinatorOp) (hop : s.Respectful op)
    (h : s.Sheltered) : (s.step op).Sheltered := by
  have hs := h.founded.ok.sound
  have hquiet : ∀ {c}, s.coordinator.Quiet c → c.NoDeadDependency ∧ c.Tied := fun hq =>
    ⟨h.noDeadDependency.quiet hq, h.tied.quiet hq⟩
  have hadvanced : ∀ {key c}, s.coordinator.Unsuperseded key →
      (s.coordinator.advanceGeneration key).Quiet c → c.NoDeadDependency ∧ c.Tied := fun hkey hq =>
    ⟨(h.noDeadDependency.advanceGeneration hs hkey).quiet hq, (h.tied.advanceGeneration hs _).quiet hq⟩
  have hqueue : ∀ {key tier snapshot feedback sidePath targets},
      (s.coordinator.checkRequest key tier snapshot.snapshot sidePath = .ok () →
        s.coordinator.Unsuperseded key) →
      (s.coordinator.queueRequest key tier snapshot feedback sidePath targets).1.NoDeadDependency ∧
        (s.coordinator.queueRequest key tier snapshot feedback sidePath targets).1.Tied := by
    intro key tier snapshot feedback sidePath targets hkey
    cases hcheck : s.coordinator.checkRequest key tier snapshot.snapshot sidePath with
    | error e =>
      unfold queueRequest
      rw [hcheck]
      exact ⟨h.noDeadDependency, h.tied⟩
    | ok =>
      rcases queueRequest_quiet hs key tier snapshot feedback sidePath targets with heq | hq
      · rw [heq]
        exact ⟨h.noDeadDependency, h.tied⟩
      · exact hadvanced (hkey hcheck) hq
  suffices hstep : (s.step op).coordinator.NoDeadDependency ∧ (s.step op).coordinator.Tied from
    ⟨step_founded s op h.founded, hstep.1, hstep.2⟩
  by_cases hquietOp : op.isQuiet = true
  · exact hquiet (step_quiet h.founded.ok hquietOp)
  cases op with
  | queue key tier snapshot feedback targets => exact hqueue hop
  | queueSidePath key snapshot feedback profile =>
    unfold step Coordinator.queueSidePath
    dsimp only
    split
    case isTrue hallowed => exact hqueue (hop hallowed)
    case isFalse => exact ⟨h.noDeadDependency, h.tied⟩
  | complete completion =>
    by_cases hinstalled : ∃ evicted, (s.coordinator.complete completion).2 = .installed evicted
    · obtain ⟨evicted, hinstalled⟩ := hinstalled
      obtain ⟨flight, artifact, cache, staged, hi⟩ := complete_eq_installed hinstalled
      exact ⟨h.founded.noDeadDependency_of_installs h.noDeadDependency hi,
        h.founded.tied_of_installs h.tied hi (hop artifact evicted hi.result_eq hinstalled)⟩
    · exact hquiet (complete_quiet hs fun evicted heq => hinstalled ⟨evicted, heq⟩)
  | rejectTier1 key tier => exact hadvanced hop (rejectTier1_quiet _ key tier)
  | retire key => exact h.noDeadDependency.retire h.tied hs h.founded.consistent hop
  | shutDown =>
    exact ⟨fun k t d hr => absurd hr (not_relies_shutDown h.founded.ok),
      fun k t d hr => absurd hr (not_relies_shutDown h.founded.ok)⟩
  | _ => exact absurd rfl hquietOp

/-- In every state reached by respectful operations, no installed artifact
depends on a dead function. -/
theorem respectful_no_dead_dependency [TypeSizes] (maxQueueLen maxAttempts : Nat) (limits : CacheLimits)
    (environment : ArtifactEnvironment) (ops : List CoordinatorOp)
    (hops : Meets step Respectful (start maxQueueLen maxAttempts limits environment) ops) :
    (runs step (start maxQueueLen maxAttempts limits environment) ops).coordinator.NoDeadDependency := by
  have hstart : (start maxQueueLen maxAttempts limits environment).Sheltered := by
    refine ⟨reachable_founded maxQueueLen maxAttempts limits environment [], ?_, ?_⟩
    · rintro k t d ⟨key, x, hkey, -⟩
      cases hkey
    · rintro k t d ⟨key, x, hkey, -⟩
      cases hkey
  exact (runs_inv_of_meets step_sheltered hstart hops).noDeadDependency

/-- Nothing is relied on if no installed artifact of a known function has
dependencies. -/
theorem Ok.not_relies (h : s.Ok) {k d : FunctionKey} {t : Tier}
    (hnone : ∀ k ∈ s.coordinator.functions.keys, ∀ t ∈ [Tier.baseline, .optimizing],
      ((s.coordinator.installedKeys k t).bind s.coordinator.cache.lookup).all
        fun x => x.artifact.dependencies.isEmpty) : ¬ s.coordinator.Relies k t d := by
  rintro ⟨key, x, hkey, hx, hd⟩
  have hknown := h.known (Life.engaged_of_installed hkey)
  have hmem : k ∈ s.coordinator.functions.keys :=
    OrdMap.mem_keys.mpr (Option.isSome_iff_exists.mp hknown)
  have hempty := hnone k hmem t (by cases t <;> decide)
  rw [hkey, Option.bind_some, hx, Option.all_some, List.isEmpty_iff] at hempty
  rw [hempty] at hd
  cases hd

end JitSystem

open scoped Sample

/-- Two functions are compiled, the second against the first. -/
def dependentPair : List CoordinatorOp :=
  sampleCompile 1 (sampleArtifact (sampleKey ⟨1, 1⟩ .baseline 0) 10 []) ++
  sampleCompile 2 (sampleArtifact (sampleKey ⟨2, 1⟩ .baseline 0) 10 [⟨1, 1⟩])

/-- A run that compiles two functions, the second against the first. -/
theorem respectful_no_dead_dependency_pair :
    let s := JitSystem.start 8 3 (.shared 1000) sampleEnvironment
    Meets JitSystem.step JitSystem.Respectful s dependentPair ∧
      (runs JitSystem.step s dependentPair).coordinator.NoDeadDependency := by
  intro s
  have hmeets : Meets JitSystem.step JitSystem.Respectful s dependentPair := by
    refine meets_append.mpr ⟨⟨?_, trivial, ?_, trivial⟩, ⟨?_, trivial, ?_, trivial⟩⟩
    · rintro - k t d ⟨key, x, hkey, -⟩
      cases hkey
    · rintro artifact - - - t d - ⟨key, x, hkey, -⟩
      cases hkey
    · intro _ k t d hr
      exact absurd hr ((JitSystem.reachable_ok ..).not_relies (by decide +kernel))
    · intro artifact _ _ _ t d _ hr
      refine absurd hr (JitSystem.Ok.not_relies ?_ (by decide +kernel))
      exact JitSystem.step_ok _ _ (JitSystem.step_ok _ _ (JitSystem.reachable_ok ..))
  exact ⟨hmeets, JitSystem.respectful_no_dead_dependency 8 3 _ _ _ hmeets⟩

/-- An installed artifact that depends on a retired function. -/
theorem Coordinator.dead_of_dependencies {c : Coordinator} (k d : FunctionKey) (t : Tier)
    (hl : ((c.installedKeys k t).bind c.cache.lookup).any fun x => x.artifact.dependencies.contains d)
    (hd : (c.record d).retired = true) : ¬ c.NoDeadDependency := by
  intro h
  cases hx : (c.installedKeys k t).bind c.cache.lookup with
  | none => simp [hx] at hl
  | some x =>
    rw [hx] at hl
    obtain ⟨key, hkey, hx⟩ := Option.bind_eq_some_iff.mp hx
    cases (h k t d ⟨key, x, hkey, hx, by simpa using hl⟩).1.symm.trans hd

/-- A request for a newer generation of the first function, or a second tier of
the other function that depends on nothing and then the retirement of the first,
leave the second one installed against a retired function. -/
theorem dead_dependency_installed :
    let s := JitSystem.start 8 3 (.shared 1000) sampleEnvironment
    ¬ (runs JitSystem.step s
        (dependentPair ++ [sampleQueue ⟨1, 2⟩ .baseline 0])).coordinator.NoDeadDependency ∧
      ¬ (runs JitSystem.step s (dependentPair ++
          sampleCompile 3 (sampleArtifact (sampleKey ⟨2, 1⟩ .optimizing 0) 10 []) ++
          [.retire ⟨1, 1⟩])).coordinator.NoDeadDependency := by
  intro s
  constructor
  · exact Coordinator.dead_of_dependencies ⟨2, 1⟩ ⟨1, 1⟩ .baseline (by decide +kernel) (by decide +kernel)
  · exact Coordinator.dead_of_dependencies ⟨2, 1⟩ ⟨1, 1⟩ .baseline (by decide +kernel) (by decide +kernel)

end QuickJit
