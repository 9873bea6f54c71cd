import QuickJit.Runtime.Standing

/-
  A retired function never runs again.

  A function is barred by its own retirement, by the retirement of something it
  depends on, by an accepted request for a newer generation and by a shutdown
  (`Bars`). In its life that is for ever, so whatever is called afterwards and
  whatever completes, it has no installed code, cannot be pinned and has no
  request accepted (`barred_forever`).
-/

namespace QuickJit

/-- Nothing of the function is installed, and neither `pin` nor a request gets
anything. -/
structure Coordinator.Unavailable (c : Coordinator) (k : FunctionKey) : Prop where
  pin : ∀ tier, (c.pin k tier).2 = none
  installed : ∀ tier, c.installedKeys k tier = none
  queue : ∀ tier snapshot feedback targets,
    (c.queueWithFeedback k tier snapshot feedback targets).2 ≠ .ok ()
  queueSidePath : ∀ snapshot feedback profile, (c.queueSidePath k snapshot feedback profile).2 ≠ .ok ()

namespace JitSystem

open Coordinator

variable {s : JitSystem} {k : FunctionKey}

/-- The operation puts an end to function `k`. -/
def Bars (s : JitSystem) (k : FunctionKey) : CoordinatorOp → Prop
  | .retire key =>
    Relation.ReflTransGen (fun a b => s.coordinator.dependencies.DependsOn b a)
      (.function key) (.function k)
  | .queue key tier snapshot feedback targets =>
    (s.coordinator.queueWithFeedback key tier snapshot feedback targets).2 = .ok () ∧
      k.id = key.id ∧ k.generation < key.generation
  | .queueSidePath key snapshot feedback profile =>
    (s.coordinator.queueSidePath key snapshot feedback profile).2 = .ok () ∧
      k.id = key.id ∧ k.generation < key.generation
  | .shutDown => True
  | _ => False

/-- Retirement reaches the transitive dependents. -/
theorem retire_retired (hc : s.coordinator.dependencies.Consistent) {key : FunctionKey}
    (h : Relation.ReflTransGen (fun a b => s.coordinator.dependencies.DependsOn b a)
      (.function key) (.function k)) :
    ((s.coordinator.retire key).record k).retired = true := by
  have hspec := DependencyGraph.invalidate_spec hc (.function key)
  have hmem : k ∈ (s.coordinator.advanceGeneration key).retired key := by
    rcases Relation.ReflTransGen.cases_tail h with heq | ⟨b, hpath, hedge⟩
    · cases heq
      exact mem_retired_self ..
    · have hall : b = .function key ∨ b ∈ (s.coordinator.dependencies.invalidate (.function key)).2 := by
        clear hedge h
        induction hpath with
        | refl => exact .inl rfl
        | tail _ hedge ih => exact .inr (hspec.closed _ _ ih.symm hedge)
      refine mem_retired_of_invalidated ?_
      rw [advanceGeneration_dependencies]
      exact hspec.closed _ _ hall.symm hedge
  rw [retire_eq]
  obtain ⟨f, hf, hretired⟩ := foldl_retireState_retired (c := { s.coordinator.advanceGeneration key with
    dependencies := ((s.coordinator.advanceGeneration key).dependencies.invalidate (.function key)).1 })
    (.inl hmem)
  rw [record, hf]
  exact hretired

/-- An accepted request bars the older generations. -/
theorem queueRequest_barred (h : s.Ok) {key : FunctionKey} {tier : Tier}
    {snapshot : VerifiedSnapshot} {feedback : FeedbackSnapshot} {sidePath : Option SidePathProfile}
    {targets : CallTargets} (hside : tier = .baseline → sidePath = none)
    (haccepted : (s.coordinator.queueRequest key tier snapshot feedback sidePath targets).2 = .ok ()) :
    (s.coordinator.queueRequest key tier snapshot feedback sidePath targets).1.currentGenerations
      key.id = some key.generation := by
  rcases queueRequest_spec False h.sound key tier snapshot feedback sidePath targets hside with
    ⟨e, herror, -⟩ | ⟨-, -, r, rfl, -, hspec⟩
  · cases herror.symm.trans haccepted
  · exact hspec.current

theorem barred_of_bars [TypeSizes] (h : s.Founded) {op : CoordinatorOp} (hop : s.Bars k op) :
    ((s.step op).life k).Barred k := by
  cases op with
  | retire key => exact .inl (retire_retired h.consistent hop)
  | queue key tier snapshot feedback targets =>
    obtain ⟨haccepted, hid, hlt⟩ := hop
    refine .inr (.inr ⟨key.generation, ?_, hlt⟩)
    show Coordinator.currentGenerations _ k.id = _
    rw [hid]
    exact queueRequest_barred h.ok (fun _ => rfl) haccepted
  | queueSidePath key snapshot feedback profile =>
    obtain ⟨haccepted, hid, hlt⟩ := hop
    refine .inr (.inr ⟨key.generation, ?_, hlt⟩)
    show (s.coordinator.queueSidePath key snapshot feedback profile).1.currentGenerations k.id = _
    rw [hid]
    unfold Coordinator.queueSidePath at haccepted ⊢
    split
    case isTrue hallowed =>
      rw [if_pos hallowed] at haccepted
      exact queueRequest_barred h.ok nofun haccepted
    case isFalse hrefused =>
      rw [if_neg hrefused] at haccepted
      cases haccepted
  | shutDown => exact .inr (.inl (shutDown_shutdown s.coordinator))
  | _ => exact hop.elim

/-- A request for a barred function is refused. -/
theorem not_admissible (hb : (s.life k).Barred k) {tier : Tier} {sidePath : Option SidePathProfile} :
    ¬ s.coordinator.Admissible k tier sidePath := fun h => by
  rcases hb with hretired | hshutdown | ⟨w, hw, hlt⟩
  · cases h.retired.symm.trans hretired
  · cases h.shutdown.symm.trans hshutdown
  · have hle := h.generation w hw
    omega

theorem unavailable_of_barred (h : s.Ok) (hb : (s.life k).Barred k) : s.coordinator.Unavailable k := by
  have hnone : ∀ tier, s.coordinator.installedKeys k tier = none := fun tier => by
    by_contra hsome
    exact (h.life k).not_engaged hb (.inr (.inr ⟨tier, hsome⟩))
  have hqueue : ∀ tier snapshot feedback sidePath targets, (tier = .baseline → sidePath = none) →
      (s.coordinator.queueRequest k tier snapshot feedback sidePath targets).2 ≠ .ok () := by
    intro tier snapshot feedback sidePath targets hside
    rcases queueRequest_spec False h.sound k tier snapshot feedback sidePath targets hside with
      ⟨e, herror, -⟩ | ⟨-, hadmissible, -⟩
    · rw [herror]
      nofun
    · exact absurd hadmissible (not_admissible hb)
  refine ⟨fun tier => ?_, hnone, fun tier snapshot feedback targets => ?_,
    fun snapshot feedback profile => ?_⟩
  · unfold Coordinator.pin
    rw [hnone tier]
  · exact hqueue tier snapshot feedback none targets fun _ => rfl
  · unfold Coordinator.queueSidePath
    split
    · exact hqueue .optimizing snapshot feedback (some profile) _ nofun
    · nofun

/-- Every operation keeps a barred function barred. -/
theorem step_barred [TypeSizes] (s : JitSystem) (op : CoordinatorOp)
    (h : s.Ok ∧ (s.life k).Barred k) : (s.step op).Ok ∧ ((s.step op).life k).Barred k := by
  have hmoves : Moves False s (s.step op) := step_moves h.1 op False.elim
  exact ⟨step_ok s op h.1, (hmoves.steps k).barred h.2⟩

/-- Once something has put an end to a function, it is unavailable after every
further run. -/
theorem barred_forever [TypeSizes] (maxQueueLen maxAttempts : Nat) (limits : CacheLimits)
    (environment : ArtifactEnvironment) (ops : List CoordinatorOp) (op : CoordinatorOp)
    (k : FunctionKey)
    (hop : (runs step (start maxQueueLen maxAttempts limits environment) ops).Bars k op)
    (later : List CoordinatorOp) :
    (runs step (start maxQueueLen maxAttempts limits environment)
      (ops ++ op :: later)).coordinator.Unavailable k := by
  have hfounded := reachable_founded maxQueueLen maxAttempts limits environment ops
  have hbarred := barred_of_bars hfounded hop
  rw [runs_append, runs_cons]
  have hlast := runs_inv step_barred ⟨step_ok _ op hfounded.ok, hbarred⟩ later
  exact unavailable_of_barred hlast.1 hlast.2

end JitSystem

open scoped Sample

/-- Function 2 was compiled against function 1, which is then retired. -/
theorem barred_forever_dependent :
    let ops := sampleCompile 1 (sampleArtifact (sampleKey ⟨1, 1⟩ .baseline 0) 10 []) ++
      sampleCompile 2 (sampleArtifact (sampleKey ⟨2, 1⟩ .baseline 0) 10 [⟨1, 1⟩])
    let s := JitSystem.start 8 3 (.shared 1000) sampleEnvironment
    (runs JitSystem.step s ops).Bars ⟨2, 1⟩ (.retire ⟨1, 1⟩) ∧
      (runs JitSystem.step s (ops ++ .retire ⟨1, 1⟩ ::
        [sampleQueue ⟨2, 1⟩ .baseline 0])).coordinator.Unavailable ⟨2, 1⟩ := by
  intro ops s
  have hbars : (runs JitSystem.step s ops).Bars ⟨2, 1⟩ (.retire ⟨1, 1⟩) :=
    .single (show DependencyKey.function ⟨1, 1⟩ ∈
      (runs JitSystem.step s ops).coordinator.dependencies.recorded (.function ⟨2, 1⟩) by
        decide +kernel)
  exact ⟨hbars, JitSystem.barred_forever 8 3 _ _ ops _ _ hbars _⟩

end QuickJit
