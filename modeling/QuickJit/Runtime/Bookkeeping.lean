import QuickJit.Runtime.SystemRuns

/-
  The queue, the tier states and the flights of a coordinator.

  They are four tables, and `reject_tier1` and the demotions of the optimizing
  tier write one of them only. As long as these operations leave tiers alone
  whose request is queued or compiling, the tables agree in every reachable
  state and what a completion installs is what was asked for last
  (`undisturbed_agreed`). A demotion during a side-path compilation leaves the
  request of the side path behind, and its code is installed in place of the
  code of the request made since (`side_path_outlives_demotion`).
-/

namespace QuickJit

def CompileState.isQueued : CompileState → Bool
  | .queued _ => true
  | _ => false

def CompileState.isCompiling : CompileState → Bool
  | .compiling _ => true
  | _ => false

namespace Coordinator

/-- Queue, tier states and flights agree. -/
structure Agreed (c : Coordinator) : Prop where
  /-- At most one request waits for a function and tier. -/
  single : ∀ key tier, (c.queue.filter (isRequestFor key tier)).length ≤ 1
  /-- One waits exactly when the tier is queued. -/
  queued : ∀ key tier, (∃ r ∈ c.queue, r.key = key ∧ r.tier = tier) ↔
    (c.tierState key tier).isQueued = true
  /-- One is in flight exactly when a tier is compiling. -/
  inFlight : ∀ key, (c.inFlight key).isSome = true ↔
    ∃ tier, (c.tierState key tier).isCompiling = true

end Coordinator

/-- What a completion installs is the artifact of the request accepted last for
its function and tier. -/
def JitSystem.InstallsLatest [TypeSizes] (s : JitSystem) : Prop :=
  ∀ completion evicted, (s.coordinator.complete completion).2 = .installed evicted →
    ∃ r artifact, s.accepted completion.key completion.requestedTier = some r ∧
      completion.attemptId = r.attemptId ∧ completion.result = .ok artifact ∧
      artifact.key = r.artifactKey ∧
      (s.coordinator.complete completion).1.installedKeys completion.key completion.requestedTier =
        some r.artifactKey

namespace Coordinator

variable {c : Coordinator} {accepted : Tier → Option CompileRequest} {key : FunctionKey} {tier : Tier}

/-- When a tier is queued, as the function's life shows it. -/
theorem tierState_isQueued (h : (c.life accepted key).Booked) :
    (c.tierState key tier).isQueued = true ↔
      (c.life accepted key).retired = false ∧ (c.life accepted key).state tier = .queued tier := by
  constructor
  · intro hqueued
    cases hstate : c.tierState key tier with
    | queued t =>
      obtain ⟨hretired, hstate⟩ := (tierState_eq_active rfl).mp hstate
      rcases h.shape tier (congrArg CompileState.isActive hstate) with hsame | hsame
      · exact ⟨hretired, hsame⟩
      · cases hstate.symm.trans hsame
    | _ =>
      rw [hstate] at hqueued
      cases hqueued
  · intro hqueued
    rw [(tierState_eq_active (show (CompileState.queued tier).isActive = true from rfl)).mpr hqueued]
    rfl

/-- When a tier is compiling, as the function's life shows it. -/
theorem tierState_isCompiling (h : (c.life accepted key).Booked) :
    (c.tierState key tier).isCompiling = true ↔
      (c.life accepted key).retired = false ∧
        (c.life accepted key).state tier = .compiling tier := by
  constructor
  · intro hcompiling
    cases hstate : c.tierState key tier with
    | compiling t =>
      obtain ⟨hretired, hstate⟩ := (tierState_eq_active rfl).mp hstate
      rcases h.shape tier (congrArg CompileState.isActive hstate) with hsame | hsame
      · cases hstate.symm.trans hsame
      · exact ⟨hretired, hsame⟩
    | _ =>
      rw [hstate] at hcompiling
      cases hcompiling
  · intro hcompiling
    rw [(tierState_eq_active (show (CompileState.compiling tier).isActive = true from rfl)).mpr
      hcompiling]
    rfl

theorem mem_life_requests {r : CompileRequest} :
    r ∈ (c.life accepted key).requests ↔ r ∈ c.queue ∧ r.key = key := by
  show r ∈ c.queue.filter _ ↔ _
  rw [List.mem_filter, decide_eq_true_eq]

end Coordinator

namespace JitSystem

open Coordinator

variable {s : JitSystem}

theorem Ok.agreed (hok : s.Ok) (hbooked : ∀ k, (s.life k).Booked) : s.coordinator.Agreed := by
  constructor
  case single =>
    intro key tier
    have hfilter : s.coordinator.queue.filter (isRequestFor key tier) =
        (s.life key).requests.filter fun r => r.tier = tier := by
      show _ = List.filter _ (List.filter _ _)
      rw [List.filter_filter]
      refine List.filter_congr fun r _ => ?_
      rw [isRequestFor, Bool.and_comm]
    rw [hfilter]
    have hsingle := (hbooked key).single
    have hlength := List.length_filter_le (fun r : CompileRequest => decide (r.tier = tier))
      (s.life key).requests
    omega
  case queued =>
    intro key tier
    rw [tierState_isQueued (hbooked key)]
    constructor
    · rintro ⟨r, hr, hkey, htier⟩
      have hmem : r ∈ (s.life key).requests := mem_life_requests.mpr ⟨hr, hkey⟩
      have hretired := ((hok.life key).live (Life.engaged_of_requests hmem)).retired
      exact ⟨hretired, ((hbooked key).queued hretired tier).mpr ⟨r, hmem, htier⟩⟩
    · rintro ⟨hretired, hstate⟩
      obtain ⟨r, hr, htier⟩ := ((hbooked key).queued hretired tier).mp hstate
      obtain ⟨hr, hkey⟩ := mem_life_requests.mp hr
      exact ⟨r, hr, hkey, htier⟩
  case inFlight =>
    intro key
    simp only [tierState_isCompiling (hbooked key)]
    constructor
    · intro hsome
      obtain ⟨flight, hflight⟩ := Option.isSome_iff_exists.mp hsome
      have hretired := ((hok.life key).live (Life.engaged_of_flight hflight)).retired
      exact ⟨flight.tier, hretired, ((hbooked key).compiling hretired _).mpr ⟨flight, hflight, rfl⟩⟩
    · rintro ⟨tier, hretired, hstate⟩
      obtain ⟨flight, hflight, -⟩ := ((hbooked key).compiling hretired tier).mp hstate
      exact Option.isSome_iff_exists.mpr ⟨flight, hflight⟩

theorem installsLatest_of_booked [TypeSizes] (hbooked : ∀ k, (s.life k).Booked) : s.InstallsLatest := by
  intro completion evicted h
  obtain ⟨flight, artifact, cache, staged, hinstalls⟩ := complete_eq_installed h
  obtain ⟨-, -, -, hid, htier, hartifact⟩ := isExpected_iff.mp hinstalls.expected
  obtain ⟨r, hr, hflight⟩ := (hbooked completion.key).latestFlight flight hinstalls.flight_eq
  have hkey : artifact.key = r.artifactKey :=
    (hinstalls.key_eq.trans hartifact.symm).trans (congrArg InFlight.artifactKey hflight).symm
  refine ⟨r, artifact, htier ▸ hr, ?_, hinstalls.result_eq, hkey, ?_⟩
  · exact hid.symm.trans (congrArg InFlight.attemptId hflight).symm
  · rw [hinstalls.complete_eq, ← hkey]
    exact if_pos ⟨rfl, rfl⟩

/-- In every state reached by operations that leave pending tiers alone, queue,
tier states and flights agree, and completions install what was asked for
last. -/
theorem undisturbed_agreed [TypeSizes] (maxQueueLen maxAttempts : Nat) (limits : CacheLimits)
    (environment : ArtifactEnvironment) (ops : List CoordinatorOp)
    (hops : Meets step Undisturbed (start maxQueueLen maxAttempts limits environment) ops) :
    (runs step (start maxQueueLen maxAttempts limits environment) ops).coordinator.Agreed ∧
      (runs step (start maxQueueLen maxAttempts limits environment) ops).InstallsLatest := by
  have hbooked := reachable_booked hops
  exact ⟨(reachable_ok ..).agreed hbooked, installsLatest_of_booked hbooked⟩

end JitSystem

open scoped Sample

/-- A baseline is compiled, a rejected optimizing tier was not asked for. -/
theorem undisturbed_agreed_after_rejection :
    let ops := sampleCompile 1 (sampleArtifact (sampleKey ⟨1, 1⟩ .baseline 0) 10 []) ++
      [.rejectTier1 ⟨1, 1⟩ .optimizing]
    let s := JitSystem.start 8 3 (.shared 1000) sampleEnvironment
    Meets JitSystem.step JitSystem.Undisturbed s ops ∧ (runs JitSystem.step s ops).coordinator.Agreed ∧
      (runs JitSystem.step s ops).InstallsLatest := by
  intro ops s
  have hmeets : Meets JitSystem.step JitSystem.Undisturbed s ops :=
    ⟨trivial, trivial, trivial, show Coordinator.isPending _ _ _ = false by decide +kernel, trivial⟩
  exact ⟨hmeets, JitSystem.undisturbed_agreed 8 3 _ _ ops hmeets⟩

/-! ## A demotion during a side-path compilation -/

/-- Both tiers of a function are compiled and a side path of the optimizing tier
is requested. Exits at two guards then demote that tier, and once the backoff is
over it is requested again. -/
def demotedSidePath : List CoordinatorOp :=
  sampleCompile 1 (sampleArtifact (sampleKey ⟨1, 1⟩ .baseline 0) 10 []) ++
  sampleCompile 2 (sampleArtifact (sampleKey ⟨1, 1⟩ .optimizing 0) 10 []) ++
  [.queueSidePath ⟨1, 1⟩ emptyFunction (sampleFeedback 1) ⟨⟨1, 1⟩, 0, 0, .int32, 1⟩,
    .recordOptimizedSideExitProfile ⟨1, 1⟩ 0 none,
    .recordOptimizedSideExitProfile ⟨1, 1⟩ 1 none,
    .advanceClock 10,
    sampleQueue ⟨1, 1⟩ .optimizing 0]

def sidePathCompletion : CompileCompletion :=
  let profile : SidePathProfile := ⟨⟨1, 1⟩, 0, 0, .int32, 1⟩
  let key := sampleKey ⟨1, 1⟩ .optimizing profile.fingerprint
  ⟨⟨1, 1⟩, .optimizing, key, 3, .ok (sampleArtifact key 10 [])⟩

/-- Two requests for one tier wait, and when the older one is handed out and
completed its code is installed although another request was accepted since. -/
theorem side_path_outlives_demotion :
    let s := runs JitSystem.step (JitSystem.start 8 3 (.shared 1000) sampleEnvironment) demotedSidePath
    ¬ s.coordinator.Agreed ∧ ¬ (s.step .beginNext).InstallsLatest := by
  intro s
  constructor
  · intro h
    have hsingle := h.single ⟨1, 1⟩ .optimizing
    have htwo : (s.coordinator.queue.filter
        (Coordinator.isRequestFor ⟨1, 1⟩ .optimizing)).length = 2 := by decide +kernel
    omega
  · intro h
    have hinstalled : ((s.step .beginNext).coordinator.complete sidePathCompletion).2 =
        .installed [] := by decide +kernel
    obtain ⟨r, artifact, hr, hid, -⟩ := h sidePathCompletion [] hinstalled
    have hlast : ((s.step .beginNext).accepted ⟨1, 1⟩ .optimizing).map (·.attemptId) = some 4 := by
      decide +kernel
    rw [show (s.step .beginNext).accepted ⟨1, 1⟩ .optimizing = some r from hr, Option.map_some,
      ← hid] at hlast
    cases hlast

end QuickJit
