import QuickJit.Runtime.CacheRuns

/-
  The code cache as its owner sees it.

  Seen from outside, a cache is a map from keys to artifacts that may be marked
  invalidated (`lookup`). Pins, drops and benefits leave the map alone, an
  insertion sets one key and removes the evicted ones, an invalidation marks
  the artifacts of one function, and reclamation removes marked artifacts only
  (`CacheOp.Maps`).
-/

namespace QuickJit

/-- A resident artifact; its benefit is the cache's own matter. -/
structure Resident where
  artifact : CompiledArtifact
  invalidated : Bool

/-- A newly inserted artifact. -/
def CompiledArtifact.resident (artifact : CompiledArtifact) : Resident :=
  ⟨{ artifact with benefit := 0 }, false⟩

def CachedArtifact.resident (x : CachedArtifact) : Resident :=
  ⟨{ x.artifact with benefit := 0 }, x.invalidated⟩

def Resident.mark (x : Resident) : Resident := { x with invalidated := true }

namespace CodeCache

/-- The resident artifact under a key. -/
def lookup (c : CodeCache) (key : ArtifactKey) : Option Resident :=
  (c.artifacts.get? key).map fun a => (c.cells a).resident

variable {c c' : CodeCache} {pins : List Address} {key : ArtifactKey}

theorem resident_of_essence {x y : CachedArtifact} (h : x.essence = y.essence) :
    x.resident = y.resident :=
  congrArg (fun x => Resident.mk x.artifact x.invalidated) h

theorem lookup_congr (hl : c'.ledger = c.ledger)
    (h : ∀ d, (c'.cells d).essence = (c.cells d).essence) (key : ArtifactKey) :
    c'.lookup key = c.lookup key := by
  unfold lookup
  rw [ledger_artifacts hl]
  exact Option.map_congr fun d _ => resident_of_essence (h d)

@[simp] theorem lookup_pin (c : CodeCache) (key key' : ArtifactKey) :
    (c.pin key).1.lookup key' = c.lookup key' :=
  lookup_congr (pin_ledger c key) (pin_essence c key) key'

@[simp] theorem lookup_dropPin (c : CodeCache) (a : Address) (key : ArtifactKey) :
    (c.dropPin a).lookup key = c.lookup key :=
  lookup_congr (dropPin_ledger c a) (dropPin_essence c a) key

@[simp] theorem lookup_recordBenefit (c : CodeCache) (key key' : ArtifactKey) (benefit : Nat) :
    (c.recordBenefit key benefit).1.lookup key' = c.lookup key' :=
  lookup_congr (recordBenefit_ledger c key benefit) (recordBenefit_essence c key benefit) key'

theorem Refused.lookup (h : c.Refused pins c') (key : ArtifactKey) : c'.lookup key = c.lookup key :=
  lookup_congr h.ledger_eq (fun d => content_essence (h.content_eq d)) key

theorem Inserted.lookup [TypeSizes] {artifact : CompiledArtifact} {evicted : List ArtifactKey}
    (hs : c.Sound pins []) (h : c.Inserted pins artifact evicted c') (key : ArtifactKey) :
    c'.lookup key = if key = artifact.key then some artifact.resident
      else if key ∈ evicted then none else c.lookup key := by
  unfold CodeCache.lookup
  rw [h.get?_eq]
  by_cases hkey : key = artifact.key
  · rw [if_pos hkey, if_pos hkey, Option.map_some, CachedArtifact.resident, h.artifact_eq, h.valid]
    rfl
  · rw [if_neg hkey, if_neg hkey]
    by_cases hmem : key ∈ evicted
    · rw [if_pos hmem, if_pos hmem]
      rfl
    · rw [if_neg hmem, if_neg hmem]
      refine Option.map_congr fun d hd => resident_of_essence (content_essence ?_)
      exact h.content_eq d (hs.fresh hd).ne

theorem lookup_invalidateDeferred (hs : c.Sound pins []) (function : FunctionKey)
    (key : ArtifactKey) :
    (c.invalidateDeferred function).lookup key =
      if key.function = function then (c.lookup key).map Resident.mark else c.lookup key := by
  show (c.artifacts.get? key).map (fun a => ((c.invalidateDeferred function).cells a).resident) = _
  unfold lookup
  cases ha : c.artifacts.get? key with
  | none => simp
  | some a =>
    -- an address is resident under one key only
    have hmatched : a ∈ c.artifactsOf function ↔ key.function = function := by
      unfold artifactsOf
      simp only [List.mem_map, List.mem_filter, decide_eq_true_eq]
      constructor
      · rintro ⟨entry, ⟨hentry, hfunction⟩, rfl⟩
        rw [hs.key_unique ha (OrdMap.mem_entries.mp hentry)]
        exact hfunction
      · exact fun hfunction => ⟨(key, a), ⟨OrdMap.mem_entries.mpr ha, hfunction⟩, rfl⟩
    simp only [Option.map_some, invalidateDeferred, hmatched]
    split <;> rfl

/-- Reclamation removes invalidated artifacts only. -/
theorem Reclaimed.lookup (h : c.Reclaimed pins c') (key : ArtifactKey) :
    c'.lookup key = c.lookup key ∨
      c'.lookup key = none ∧ ∃ x, c.lookup key = some x ∧ x.invalidated = true := by
  unfold CodeCache.lookup
  cases ha : c'.artifacts.get? key with
  | some a =>
    left
    rw [h.get?_eq ha]
    exact congrArg some (resident_of_essence (content_essence (h.content_eq a)))
  | none =>
    cases ha' : c.artifacts.get? key with
    | none => exact .inl rfl
    | some a =>
      refine .inr ⟨rfl, _, rfl, ?_⟩
      by_contra hvalid
      have hkept := h.kept ha' (by simpa [CachedArtifact.resident] using hvalid)
      cases ha.symm.trans hkept

/-- The baseline of a resident optimizing artifact is resident. -/
theorem Sound.lookup_baseline (hs : c.Sound pins []) {x : Resident} (h : c.lookup key = some x)
    (htier : key.tier = .optimizing) : (c.lookup (key.withTier .baseline)).isSome := by
  obtain ⟨a, ha, -⟩ := Option.map_eq_some_iff.mp h
  obtain ⟨b, -, hb⟩ := hs.target ha htier
  simp [lookup, hb]

/-- What is replaced is not the baseline of a resident optimizing artifact. -/
theorem Replaceable.no_referrer (hs : c.Sound pins []) {key' : ArtifactKey} (h : c.Replaceable key)
    (hres : (c.lookup key').isSome) (htier : key'.tier = .optimizing) :
    key'.withTier .baseline ≠ key := by
  rintro rfl
  obtain ⟨x, hx⟩ := Option.isSome_iff_exists.mp hres
  obtain ⟨a, ha, -⟩ := Option.map_eq_some_iff.mp hx
  obtain ⟨b, htarget, hb⟩ := hs.target ha htier
  have hnone := (h b hb).2
  have hreferences := hs.references hb
  let without := { c with artifacts := c.artifacts.erase key' }
  have hart : without.artifacts = c.artifacts.erase key' := rfl
  have hsum := total_erase (g := refersTo b) hart ha fun _ _ _ => rfl
  have hone : refersTo b (c.cells a) = 1 := if_pos htarget
  omega

end CodeCache

/-! ## The map -/

/-- `m'` lacks some of the invalidated artifacts of `m`, and nothing else. -/
def Reclaims (m m' : ArtifactKey → Option Resident) : Prop :=
  ∀ key, m' key = m key ∨ m' key = none ∧ ∃ x, m key = some x ∧ x.invalidated = true

/-- What an operation of the cache `c` may do to the map. A refused insertion
changes nothing, any other removes exactly the evictions it returns. -/
def CacheOp.Maps [TypeSizes] (c : CodeCache) :
    CacheOp → (ArtifactKey → Option Resident) → (ArtifactKey → Option Resident) → Prop
  | .insert artifact, m, m' =>
    match (c.insert artifact).2 with
    | .error _ => m' = m
    | .ok evicted => m' = fun key => if key = artifact.key then some artifact.resident
      else if key ∈ evicted then none else m key
  | .touch _, m, m' | .recordBenefit _ _, m, m' | .pin _, m, m' | .dropPin _, m, m' => m' = m
  | .invalidateDeferred function, m, m' =>
    m' = fun key => if key.function = function then (m key).map Resident.mark else m key
  | .invalidate function, m, m' =>
    Reclaims (fun key => if key.function = function then (m key).map Resident.mark else m key) m'
  | .collectInvalidated, m, m' | .collectInvalidatedWithBudget _, m, m' | .pollReclamation, m, m'
  | .pollReclamationWithBudget _, m, m' => Reclaims m m'

/-- The cache refines a map: in every reachable state an operation changes what
can be looked up only as it may change the map. -/
theorem cache_refines_map [TypeSizes] (limits : CacheLimits) (ops : List CacheOp) (op : CacheOp) :
    let s := runs CacheSystem.step ⟨limits.cache, []⟩ ops
    op.Maps s.cache s.cache.lookup (s.step op).cache.lookup := by
  intro s
  have hs : s.cache.Sound s.pins [] :=
    (runs_inv CacheSystem.step_ok (CacheSystem.initial_ok limits) ops).sound
  cases op with
  | insert artifact =>
    rcases CodeCache.insert_spec hs artifact with ⟨c, e, heq, hrefused⟩ | ⟨c, E, heq, hinserted⟩
    · simp only [CacheOp.Maps, CacheSystem.step, heq]
      exact funext hrefused.lookup
    · simp only [CacheOp.Maps, CacheSystem.step, heq]
      exact funext (hinserted.lookup hs)
  | touch key =>
    exact funext (CodeCache.lookup_congr (CodeCache.touch_ledger ..) (CodeCache.touch_essence _ key))
  | recordBenefit key benefit => exact funext fun key' => CodeCache.lookup_recordBenefit ..
  | pin key => exact funext fun key' => CodeCache.lookup_pin ..
  | dropPin pin =>
    show (CacheSystem.step s (.dropPin pin)).cache.lookup = s.cache.lookup
    unfold CacheSystem.step
    dsimp only
    split
    · exact funext fun key => CodeCache.lookup_dropPin ..
    · rfl
  | invalidateDeferred function => exact funext (CodeCache.lookup_invalidateDeferred hs function)
  | invalidate function =>
    have hcollected :=
      CodeCache.collectInvalidated_reclaimed (hs.invalidateDeferred function)
    intro key
    simp only [← CodeCache.lookup_invalidateDeferred hs function]
    exact hcollected.lookup key
  | collectInvalidated => exact (CodeCache.collectInvalidated_reclaimed hs).lookup
  | collectInvalidatedWithBudget budget =>
    exact (CodeCache.collectInvalidatedWithBudget_reclaimed hs budget).lookup
  | pollReclamation => exact (CodeCache.pollReclamation_reclaimed hs).lookup
  | pollReclamationWithBudget budget =>
    exact (CodeCache.pollReclamationWithBudget_reclaimed hs budget).lookup

end QuickJit
