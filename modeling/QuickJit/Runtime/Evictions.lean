import QuickJit.Runtime.Standing

/-
  What evictions take away.

  An installation may evict artifacts, and the coordinator then takes the
  function and the tier of each out of its tables. It does not look at the
  artifact key, and a function can have several optimizing artifacts in the
  cache. So an eviction takes away only what it evicted exactly if the plan that
  takes an optimizing artifact also takes the one that is installed for its
  function (`evictions_unpublish_evicted`). After a recompilation, the eviction
  of the old artifact alone takes the new one out of the tables, though it stays
  in the cache (`eviction_unpublishes_newer`).
-/

namespace QuickJit

namespace CodeCache

variable [TypeSizes] {c c' : CodeCache} {artifact : CompiledArtifact}

/-- What `evict::plan` selects when an artifact is inserted. -/
def planned (c : CodeCache) (artifact : CompiledArtifact) : List ArtifactKey :=
  match c.admission artifact, c.deoptBaseline artifact.key with
  | .ok (chargeBytes, metadataBytes), .ok target =>
    ((c.hold target).reserve artifact.key chargeBytes artifact.codeBytes metadataBytes).toOption.getD []
  | _, _ => []

theorem planned_eq {evicted : List ArtifactKey} (h : c.insert artifact = (c', .ok evicted)) :
    c.planned artifact = evicted := by
  unfold insert at h
  split at h
  · cases h
  case h_2 hadmit =>
  split at h
  · cases h
  case h_2 target htarget =>
  dsimp only at h
  split at h
  · cases h
  case h_2 selected hreserve =>
  have hselected : selected = evicted := by
    unfold commit at h
    split at h <;> cases h
    rfl
  simp only [planned, hadmit, htarget, hreserve]
  exact hselected

end CodeCache

namespace Coordinator

/-- Apart from the tier it is for, a completion that evicted `evicted` takes away
what it evicted only, and functions that lost nothing stay published as they
were. -/
structure EvictsOnly (c c' : Coordinator) (completion : CompileCompletion)
    (evicted : List ArtifactKey) : Prop where
  installed : ∀ k t key, ¬ (k = completion.key ∧ t = completion.requestedTier) →
    c.installedKeys k t = some key → c'.installedKeys k t ≠ some key → key ∈ evicted
  published : ∀ k, k ≠ completion.key → (∀ key ∈ evicted, key.function ≠ k) →
    (c'.record k).published = (c.record k).published

/-- If the plan for a completed artifact takes an optimizing artifact, it takes the
installed one of the function too; the tier that is completed is left out. -/
def PlanTakesInstalled [TypeSizes] (c : Coordinator) (completion : CompileCompletion) : Prop :=
  ∀ artifact, completion.result = .ok artifact → ∀ key ∈ c.cache.planned artifact,
    key.tier = .optimizing →
    ¬ (key.function = completion.key ∧ completion.requestedTier = .optimizing) →
    ∀ key', c.installedKeys key.function .optimizing = some key' → key' ∈ c.cache.planned artifact

variable {k : FunctionKey} {t : Tier}

/-- Evictions of other functions' artifacts. -/
theorem foldl_evictOffer_ne :
    ∀ (evicted : List ArtifactKey) (offer : Life.Offer), (∀ key ∈ evicted, key.function ≠ k) →
      evicted.foldl (Life.evictOffer k) offer = offer
  | [], _, _ => rfl
  | key :: evicted, offer, h => by
    have hhead : Life.evictOffer k offer key = offer := if_neg (h key List.mem_cons_self)
    rw [List.foldl_cons, hhead]
    exact foldl_evictOffer_ne evicted offer fun key' hkey' => h key' (List.mem_cons_of_mem _ hkey')

/-- Evictions of a function's artifacts of a tier, and no others, leave the tier
without one. -/
theorem foldl_evictOffer_installed :
    ∀ (evicted : List ArtifactKey) (offer : Life.Offer),
      (evicted.foldl (Life.evictOffer k) offer).2 t =
        if ∃ key ∈ evicted, key.function = k ∧ key.tier = t then none else offer.2 t
  | [], _ => by simp
  | key :: evicted, offer => by
    have hhead : (Life.evictOffer k offer key).2 t =
        if key.function = k ∧ key.tier = t then none else offer.2 t := by
      unfold Life.evictOffer
      by_cases hk : key.function = k <;> simp [hk, Function.update_apply, eq_comm (a := t)]
    rw [List.foldl_cons, foldl_evictOffer_installed evicted, hhead]
    simp only [List.exists_mem_cons_iff]
    by_cases hrest : ∃ key ∈ evicted, key.function = k ∧ key.tier = t <;> simp [hrest]

/-- What is installed after a completion, apart from its own tier. -/
theorem Installs.installedKeys_eq [TypeSizes] {c : Coordinator} {completion : CompileCompletion}
    {flight : InFlight} {artifact : CompiledArtifact} {evicted : List ArtifactKey}
    {cache : CodeCache} {staged : DependencyGraph}
    (h : c.Installs completion flight artifact evicted cache staged)
    (hother : ¬ (k = completion.key ∧ t = completion.requestedTier)) :
    (c.complete completion).1.installedKeys k t =
      if ∃ key ∈ evicted, key.function = k ∧ key.tier = t then none else c.installedKeys k t := by
  have hoffer := (foldl_recordEviction_offer (k := k) evicted (c.ready completion cache staged)).1
  rw [h.complete_eq]
  refine (if_neg hother).trans ((congrArg (fun o : Life.Offer => o.2 t) hoffer).trans ?_)
  exact foldl_evictOffer_installed evicted _

end Coordinator

namespace JitSystem

open Coordinator

variable {s : JitSystem}

/-- A function has one baseline key. -/
theorem Ok.baseline_unique (h : s.Ok) {key key' : ArtifactKey} {a : Address}
    (ha : s.coordinator.cache.artifacts.get? key = some a) (htier : key.tier = .baseline)
    (hinstalled : s.coordinator.installedKeys key.function .baseline = some key') : key' = key := by
  have hresident : (s.life key.function).artifacts key = some (s.coordinator.cache.cells a).resident := by
    show (if key.function = key.function then s.coordinator.cache.lookup key else none) = _
    rw [if_pos rfl, CodeCache.lookup, ha]
    rfl
  have hbase := ((h.life key.function).resident key _ hresident).baseline_eq htier
  rw [(h.lookup hinstalled).1.baseline_eq rfl, ← hbase]

theorem Ok.evictsOnly_iff [TypeSizes] (h : s.Ok) {completion : CompileCompletion}
    {evicted : List ArtifactKey}
    (hinstalled : (s.coordinator.complete completion).2 = .installed evicted) :
    s.coordinator.EvictsOnly (s.coordinator.complete completion).1 completion evicted ↔
      s.coordinator.PlanTakesInstalled completion := by
  obtain ⟨flight, artifact, cache, staged, hi⟩ := complete_eq_installed hinstalled
  have hplanned := CodeCache.planned_eq hi.insert_eq
  let c₁ := s.coordinator.ready completion cache staged
  constructor
  · -- the tier of an evicted artifact is left without one
    intro honly artifact' hresult key hkey htier hother key' hkey'
    cases hi.result_eq.symm.trans hresult
    rw [hplanned] at hkey ⊢
    have hslot : ¬ (key.function = completion.key ∧ .optimizing = completion.requestedTier) :=
      fun hsame => hother ⟨hsame.1, hsame.2.symm⟩
    refine honly.installed key.function .optimizing key' hslot hkey' ?_
    rw [hi.installedKeys_eq hslot, if_pos ⟨key, hkey, rfl, htier⟩]
    nofun
  · intro hplan
    constructor
    case installed =>
      intro k t key hother hkey hgone
      rw [hi.installedKeys_eq hother] at hgone
      split at hgone
      case isFalse => exact absurd hkey hgone
      case isTrue hevicted =>
      obtain ⟨e, he, rfl, rfl⟩ := hevicted
      cases htier : e.tier with
      | optimizing =>
        rw [htier] at hkey hother
        have hmem := hplan artifact hi.result_eq e (hplanned ▸ he) htier
          (fun hsame => hother ⟨hsame.1, hsame.2.symm⟩) key hkey
        rwa [hplanned] at hmem
      | baseline =>
        rw [htier] at hkey
        obtain ⟨-, a, ha, -⟩ := (hi.inserted h.sound).unpinned e he
        exact h.baseline_unique ha htier hkey ▸ he
    case published =>
      intro k hk hnone
      have hrecord := (foldl_recordEviction_offer (k := k) evicted c₁).2
      rw [foldl_evictOffer_ne evicted (c₁.offer k) hnone] at hrecord
      have hinstall : (s.coordinator.complete completion).1.record k =
          (evicted.foldl recordEviction c₁).record k := by
        rw [hi.complete_eq]
        exact (record_modify _).trans (if_neg fun h => hk h.1.symm)
      have hready : c₁.record k = s.coordinator.record k :=
        (record_modify _).trans (if_neg fun h => hk h.1.symm)
      rw [hinstall, hrecord]
      exact congrArg FunctionState.published hready

/-- In every reachable state, a completion takes away what it evicts only, exactly
if its plan takes the installed optimizing artifact wherever it takes one. -/
theorem evictions_unpublish_evicted [TypeSizes] (maxQueueLen maxAttempts : Nat) (limits : CacheLimits)
    (environment : ArtifactEnvironment) (ops : List CoordinatorOp) (completion : CompileCompletion)
    (evicted : List ArtifactKey)
    (hinstalled : ((runs step (start maxQueueLen maxAttempts limits
      environment) ops).coordinator.complete completion).2 = .installed evicted) :
    (runs step (start maxQueueLen maxAttempts limits environment) ops).coordinator.EvictsOnly
        ((runs step (start maxQueueLen maxAttempts limits environment) ops).coordinator.complete
          completion).1 completion evicted ↔
      (runs step (start maxQueueLen maxAttempts limits
        environment) ops).coordinator.PlanTakesInstalled completion :=
  (reachable_ok maxQueueLen maxAttempts limits environment ops).evictsOnly_iff hinstalled

end JitSystem

open scoped Sample

/-- The fingerprint of a signature without arguments and with a boolean result, for
function 1 at epoch 1. -/
def boolSignature : BitVec 64 :=
  [1, 1, 0, 4, 1].foldl (fun state value => (state ^^^ value) * 0x100000001b3) 0xcbf29ce484222325

/-- Both tiers of function 1 are compiled, the optimizing one a second time for
that signature, and function 2 is asked for. -/
def recompiledPath : List CoordinatorOp :=
  sampleCompile 1 (sampleArtifact (sampleKey ⟨1, 1⟩ .baseline 0) 10 []) ++
  sampleCompile 2 (sampleArtifact (sampleKey ⟨1, 1⟩ .optimizing 0) 10 []) ++
  [.prepareStablePathRecompile ⟨1, 1⟩,
    .queue ⟨1, 1⟩ .optimizing emptyFunction
      { sampleFeedback 1 with boundedSpecialization := fun _ => some boolSignature } ⟨[], none⟩,
    .beginNext,
    sampleComplete 3 (sampleArtifact (sampleKey ⟨1, 1⟩ .optimizing boolSignature) 10 []),
    sampleQueue ⟨2, 1⟩ .baseline 0,
    .beginNext]

/-- A completion of the baseline of function 2. -/
def secondCompletion (code : Nat) : CompileCompletion :=
  let artifact := sampleArtifact (sampleKey ⟨2, 1⟩ .baseline 0) code []
  ⟨⟨2, 1⟩, .baseline, artifact.key, 4, .ok artifact⟩

/-- A baseline that needs almost the whole cache evicts both optimizing artifacts
of function 1, and its baseline. -/
theorem evictions_unpublish_evicted_all :
    let c := (runs JitSystem.step (JitSystem.start 8 3 (.shared 35) sampleEnvironment)
      recompiledPath).coordinator
    let evicted := [sampleKey ⟨1, 1⟩ .optimizing 0, sampleKey ⟨1, 1⟩ .optimizing boolSignature,
      sampleKey ⟨1, 1⟩ .baseline 0]
    (c.complete (secondCompletion 30)).2 = .installed evicted ∧
      c.EvictsOnly (c.complete (secondCompletion 30)).1 (secondCompletion 30) evicted := by
  intro c evicted
  have hinstalled : (c.complete (secondCompletion 30)).2 = .installed evicted := by decide +kernel
  refine ⟨hinstalled, (JitSystem.evictions_unpublish_evicted 8 3 _ _ _ _ _ hinstalled).mpr ?_⟩
  intro artifact hresult key hkey _ _ key' hkey'
  cases hresult
  have htaken : ∀ e ∈ c.cache.planned (sampleArtifact (sampleKey ⟨2, 1⟩ .baseline 0) 30 []),
      (c.installedKeys e.function .optimizing).all (· ∈ c.cache.planned
        (sampleArtifact (sampleKey ⟨2, 1⟩ .baseline 0) 30 [])) = true := by decide +kernel
  have hall := htaken key hkey
  rw [hkey'] at hall
  exact of_decide_eq_true hall

/-- A smaller baseline evicts the first optimizing artifact of function 1 only,
and the second one, which stays in the cache, is no longer installed. -/
theorem eviction_unpublishes_newer :
    let c := (runs JitSystem.step (JitSystem.start 8 3 (.shared 35) sampleEnvironment)
      recompiledPath).coordinator
    (c.complete (secondCompletion 10)).2 = .installed [sampleKey ⟨1, 1⟩ .optimizing 0] ∧
      ¬ c.EvictsOnly (c.complete (secondCompletion 10)).1 (secondCompletion 10)
        [sampleKey ⟨1, 1⟩ .optimizing 0] := by
  intro c
  refine ⟨by decide +kernel, fun h => ?_⟩
  have hmem := h.installed ⟨1, 1⟩ .optimizing (sampleKey ⟨1, 1⟩ .optimizing boolSignature) (by decide)
    (by decide +kernel) (by decide +kernel)
  exact absurd hmem (by decide +kernel)

end QuickJit
