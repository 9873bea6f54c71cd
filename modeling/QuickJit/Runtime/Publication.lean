import QuickJit.Runtime.SystemRuns

/-
  Publication, installation and residency agree.

  The published tier, the installed keys and the cache are written by installs,
  evictions, demotions, refreshes and retirement, each of which touches some of
  them. What they rely on holds in every reachable state (`reachable_coherent`):
  the published tier is the highest installed one, installed artifacts are
  resident and valid and their baselines resident, and a tier that reports to be
  installed can be pinned.
-/

namespace QuickJit

namespace Coordinator

/-- Publication, installation and residency agree. -/
structure Coherent (c : Coordinator) : Prop where
  /-- The published tier is the highest installed one. -/
  published : ∀ k t, (c.record k).published = some t → (c.installedKeys k t).isSome = true ∧
    ∀ t', (c.installedKeys k t').isSome = true → t'.rank ≤ t.rank
  /-- Installed artifacts are resident, valid and of the function and tier. -/
  installed : ∀ k t key, c.installedKeys k t = some key →
    key.functionId = k.id ∧ key.generation = k.generation ∧ key.tier = t ∧
      ∃ x, c.cache.lookup key = some x ∧ x.invalidated = false
  /-- The baseline an installed optimizing artifact falls back to is resident. -/
  baseline : ∀ k key, c.installedKeys k .optimizing = some key →
    (c.cache.lookup (key.withTier .baseline)).isSome = true
  /-- Installed optimized code is of the latest feedback epoch. -/
  epoch : ∀ k key x metadata, c.installedKeys k .optimizing = some key →
    c.cache.lookup key = some x → x.artifact.optimized = some metadata →
      c.latestFeedbackEpochs k = some metadata.feedbackEpoch
  /-- What reports to be installed can be pinned. -/
  pin : ∀ k t, c.tierState k t = .installed t → (c.pin k t).2.isSome = true
  retired : ∀ k, (c.record k).retired = true →
    (c.record k).published = none ∧ ∀ t, c.installedKeys k t = none

end Coordinator

/-- A valid resident artifact can be pinned, and the pin shows it. -/
theorem CodeCache.pin_of_lookup {c : CodeCache} {key : ArtifactKey} {x : Resident}
    (h : c.lookup key = some x) (hvalid : x.invalidated = false) :
    ∃ cache a, c.pin key = (cache, some a) ∧ (cache.cells a).artifact.optimized = x.artifact.optimized := by
  obtain ⟨a, ha, rfl⟩ := Option.map_eq_some_iff.mp h
  have hvalid : (c.cells a).invalidated = false := hvalid
  unfold CodeCache.pin
  dsimp only [CodeCache.nextTick]
  rw [ha]
  simp only [hvalid]
  refine ⟨_, a, rfl, ?_⟩
  simp [CodeCache.modify, CachedArtifact.resident]

namespace JitSystem

open Coordinator

variable {s : JitSystem} {k : FunctionKey} {t : Tier}

theorem Ok.epoch (h : s.Ok) {key : ArtifactKey} {x : Resident} {metadata : OptimizedArtifactMetadata}
    (hi : s.coordinator.installedKeys k .optimizing = some key)
    (hx : s.coordinator.cache.lookup key = some x) (hm : x.artifact.optimized = some metadata) :
    s.coordinator.latestFeedbackEpochs k = some metadata.feedbackEpoch := by
  have hfor := (h.lookup hi).1
  refine (h.life k).epoch key x metadata hi ?_ hm
  show (if key.function = k then s.coordinator.cache.lookup key else none) = some x
  rw [if_pos hfor.function_eq]
  exact hx

/-- An installed tier can be pinned. -/
theorem Ok.pin (h : s.Ok) {key : ArtifactKey} (hi : s.coordinator.installedKeys k t = some key) :
    (s.coordinator.pin k t).2.isSome = true := by
  obtain ⟨-, x, hx, hvalid⟩ := h.lookup hi
  obtain ⟨cache, a, hpin, hoptimized⟩ := CodeCache.pin_of_lookup hx hvalid
  unfold Coordinator.pin
  rw [hi]
  dsimp only
  rw [hpin]
  dsimp only
  rw [hoptimized]
  split
  case isTrue hstale =>
    obtain ⟨rfl, hstale⟩ := hstale
    cases hm : x.artifact.optimized with
    | none => simp [hm] at hstale
    | some metadata => simp [hm, h.epoch hi hx hm] at hstale
  case isFalse => rfl

/-- A tier reports to be installed only if it is. -/
theorem Ok.installed_of_tierState (h : s.Ok) (hstate : s.coordinator.tierState k t = .installed t) :
    s.coordinator.installedKeys k t ≠ none := by
  have hlife := h.life k
  have hstates : ((s.coordinator.record k).tier t).state ≠ .installed t := hlife.states t t
  have hpublished : (s.coordinator.record k).published = some t → _ := hlife.published t
  unfold tierState at hstate
  unfold record at hstates hpublished
  cases hget : s.coordinator.functions.get? k with
  | none =>
    rw [hget] at hstate
    cases hstate
  | some f =>
    rw [hget] at hstate hstates hpublished
    dsimp only at hstate
    split at hstate
    · cases hstate
    split at hstate
    · exact absurd hstate hstates
    split at hstate
    case isTrue hor =>
      rcases hor with hp | hi
      · exact (hpublished hp).1
      · exact Option.isSome_iff_ne_none.mp hi
    case isFalse => cases hstate

theorem Ok.coherent (h : s.Ok) : s.coordinator.Coherent := by
  constructor
  case published =>
    intro k t ht
    obtain ⟨hi, hhigh⟩ := (h.life k).published t ht
    refine ⟨Option.isSome_iff_ne_none.mpr hi, fun t' ht' => ?_⟩
    cases t with
    | optimizing => cases t' <;> decide
    | baseline =>
      cases t' with
      | baseline => exact Nat.le_refl _
      | optimizing =>
        have hnone : s.coordinator.installedKeys k .optimizing = none := hhigh rfl
        rw [hnone] at ht'
        cases ht'
  case installed =>
    intro k t key hi
    obtain ⟨hfor, hx⟩ := h.lookup hi
    have hfunction := hfor.function_eq
    exact ⟨congrArg FunctionKey.id hfunction, congrArg FunctionKey.generation hfunction, hfor.tier_eq, hx⟩
  case baseline =>
    intro k key hi
    obtain ⟨hfor, x, hx, -⟩ := h.lookup hi
    exact h.sound.lookup_baseline hx hfor.tier_eq
  case epoch => exact fun k key x metadata hi hx hm => h.epoch hi hx hm
  case pin =>
    intro k t hstate
    obtain ⟨key, hi⟩ := Option.ne_none_iff_exists'.mp (h.installed_of_tierState hstate)
    exact h.pin hi
  case retired =>
    intro k hretired
    have hlife := h.life k
    have hnone := hlife.not_engaged (.inl hretired)
    have hinstalled : ∀ t, s.coordinator.installedKeys k t = none := fun t => by
      by_contra hsome
      exact hnone (.inr (.inr ⟨t, hsome⟩))
    refine ⟨?_, hinstalled⟩
    by_contra hsome
    obtain ⟨t, ht⟩ := Option.ne_none_iff_exists'.mp hsome
    exact (hlife.published t ht).1 (hinstalled t)

/-- In every reachable state, publication, installation and residency agree. -/
theorem reachable_coherent [TypeSizes] (maxQueueLen maxAttempts : Nat) (limits : CacheLimits)
    (environment : ArtifactEnvironment) (ops : List CoordinatorOp) :
    (runs step (start maxQueueLen maxAttempts limits environment) ops).coordinator.Coherent :=
  (reachable_ok maxQueueLen maxAttempts limits environment ops).coherent

end JitSystem

end QuickJit
