import QuickJit.Runtime.Protocol

/-
  What a call of `dispatch_next` does while no worker is at work.

  `dispatchNext` is the call without interruption: the owner's steps in a row
  until it is idle again (`dispatchNext_idle`). With no job around every counter
  is zero, so the outcome depends on the first wanted request alone: it is
  handed over if it fits without its inline bodies (`dispatchNext_hands`), and
  otherwise goes back to the front of the queue, where the next call finds it
  again (`dispatchNext_blocked`). `dispatches_iff` puts the two together.
-/

namespace QuickJit

open Function

/-- The first request in the queue that is still wanted. -/
def Coordinator.firstWanted (c : Coordinator) : Option CompileRequest := c.queue.find? c.isWanted

/-- Whether a job fits the limits on its own. -/
def Job.affordable (limits : BackgroundLimits) (job : Job) : Bool :=
  job.snapshotBytes limits ≤ limits.maxSnapshotBytes &&
    satMul (job.snapshotBytes limits) 32 ≤ limits.maxIrBytes

/-- A saturating sum is exact up to its bound. -/
theorem foldl_satAdd {α : Type} (size : α → Nat) : ∀ (xs : List α) {total : Nat}, total ≤ usizeMax →
    xs.foldl (fun total x => satAdd total (size x)) total =
      min (total + (xs.map size).sum) usizeMax
  | [], total, h => by simp [h]
  | x :: xs, total, _ => by
    have hfirst : satAdd total (size x) ≤ usizeMax := Nat.min_le_right ..
    rw [List.foldl_cons, foldl_satAdd size xs hfirst, List.map_cons, List.sum_cons]
    unfold satAdd
    omega

theorem Job.snapshotBytes_eq (limits : BackgroundLimits) (job : Job) : job.snapshotBytes limits =
    min (job.request.snapshot.snapshot.ownedBytes limits.constantBytes +
      job.retained.arrayFeedbackBytes +
      (job.retained.directCallTargets.map fun body => body.getD 0).sum +
      job.retained.frameInlineTargets.sum) usizeMax := by
  have hfirst : satAdd (job.request.snapshot.snapshot.ownedBytes limits.constantBytes)
      job.retained.arrayFeedbackBytes ≤ usizeMax := Nat.min_le_right ..
  unfold snapshotBytes
  dsimp only
  rw [foldl_satAdd (fun body : Option Nat => body.getD 0) _ hfirst,
    foldl_satAdd (fun body : Nat => body) _ (Nat.min_le_right ..), List.map_id']
  unfold satAdd
  omega

/-- A bound on the steps left in a call of the owner. -/
def OwnerPhase.stepsLeft : OwnerPhase → Nat
  | .idle => 0
  | .refunding _ counter => 3 - counter.rank
  | .sending _ => 4
  | .charging _ counter => 7 - counter.rank
  | .fitting _ last => if last then 8 else 10
  | .weighing _ last => if last then 9 else 11
  | .vacant => 12
  | .opened => 13
  | .draining budget _ => 14 + budget
  | .receiving budget => 1 + 2 * budget
  | .landed _ budget => 2 + 2 * budget

namespace Background

variable {limits : BackgroundLimits} {s t u : Background}

/-! ## Idle owners -/

theorem owner_of_stepsLeft {phase : OwnerPhase} (h : phase.stepsLeft = 0) : phase = .idle := by
  cases phase with
  | idle => rfl
  | refunding job counter => cases counter <;> simp [OwnerPhase.stepsLeft, Counter.rank] at h
  | charging job counter => cases counter <;> simp [OwnerPhase.stepsLeft, Counter.rank] at h
  | fitting job last => cases last <;> simp [OwnerPhase.stepsLeft] at h
  | weighing job last => cases last <;> simp [OwnerPhase.stepsLeft] at h
  | _ => simp [OwnerPhase.stepsLeft] at h

/-- The fixed points among the iterates of a point are one. -/
theorem iterate_fixed_unique {α : Type} {f : α → α} {x : α} {m n : Nat}
    (hm : Function.IsFixedPt f (f^[m] x)) (hn : Function.IsFixedPt f (f^[n] x)) :
    f^[m] x = f^[n] x := by
  calc f^[m] x = f^[n] (f^[m] x) := ((hm.iterate n).eq).symm
    _ = f^[n + m] x := (iterate_add_apply ..).symm
    _ = f^[m + n] x := by rw [Nat.add_comm]
    _ = f^[m] (f^[n] x) := iterate_add_apply ..
    _ = f^[n] x := (hn.iterate m).eq

/-! ## Limits with nothing charged -/

/-- No call under way, no completion to apply and no job around. -/
structure Resting (s : Background) : Prop where
  owner : s.owner = .idle
  overflow : s.overflow = []
  jobs : s.jobs = []
  usage : ∀ counter, s.usage counter = 0

theorem Balanced.resting (h : s.Balanced limits) (howner : s.owner = .idle)
    (hoverflow : s.overflow = []) (hjobs : s.jobs = []) (hworking : s.working = []) :
    s.Resting where
  owner := howner
  overflow := hoverflow
  jobs := hjobs
  usage counter := by
    rw [h.usage counter]
    simp [charged, howner, hjobs, hworking, OwnerPhase.charged]

theorem Resting.hasRoom (h : s.Resting) (job : Job) (counter : Counter) :
    s.hasRoom limits job counter = decide (job.weight limits counter ≤ limits.limit counter) := by
  unfold Background.hasRoom
  rw [h.usage counter]
  exact decide_eq_decide.mpr (by omega)

theorem affordable_iff (job : Job) : job.affordable limits = true ↔
    job.weight limits .snapshots ≤ limits.limit .snapshots ∧
      job.weight limits .ir ≤ limits.limit .ir := by
  simp [Job.affordable, Job.weight, BackgroundLimits.limit]

/-- Inline bodies only add to a job. -/
theorem affordable_discard {job : Job} (h : job.affordable limits = true) :
    job.discardInlineSnapshots.affordable limits = true := by
  have hle : job.discardInlineSnapshots.snapshotBytes limits ≤ job.snapshotBytes limits := by
    rw [Job.snapshotBytes_eq, Job.snapshotBytes_eq]
    simp [Job.discardInlineSnapshots, Retained.discardInlineSnapshots]
    omega
  have hir : satMul (job.discardInlineSnapshots.snapshotBytes limits) 32 ≤
      satMul (job.snapshotBytes limits) 32 := by
    unfold satMul
    omega
  simp only [Job.affordable, Bool.and_eq_true, decide_eq_true_eq] at h ⊢
  exact ⟨hle.trans h.1, hir.trans h.2⟩

/-! ## The end of a call -/

variable [TypeSizes]

variable (limits) in
/-- A call of `dispatch_next` with no other event in between. -/
def dispatchNext (s : Background) : Background :=
  (ownerStep limits)^[14 + defaultCompletionDrainBudget] (s.step limits .dispatchNext)

/-- Each step of the owner leaves fewer to go. -/
theorem ownerStep_stepsLeft (s : Background) :
    (s.ownerStep limits).owner.stepsLeft ≤ s.owner.stepsLeft - 1 := by
  cases howner : s.owner with
  | idle => simp [ownerStep, howner, OwnerPhase.stepsLeft]
  | draining budget dispatching =>
    simp only [ownerStep, howner]
    split
    · simp [OwnerPhase.stepsLeft, pass]
    · cases dispatching <;> simp [OwnerPhase.stepsLeft]
  | receiving budget =>
    simp only [ownerStep, howner]
    split
    · simp only [OwnerPhase.stepsLeft]
      omega
    · simp [OwnerPhase.stepsLeft]
  | landed completion budget => simp [ownerStep, howner, OwnerPhase.stepsLeft, pass]
  | opened =>
    simp only [ownerStep, howner]
    split <;> simp [OwnerPhase.stepsLeft]
  | vacant =>
    simp only [ownerStep, howner]
    cases s.system.coordinator.beginNext.2 <;> simp [OwnerPhase.stepsLeft]
  | weighing job last =>
    simp only [ownerStep, howner]
    split <;> cases last <;> simp [OwnerPhase.stepsLeft, overLimit, rollback]
  | fitting job last =>
    simp only [ownerStep, howner]
    split <;> cases last <;> simp [OwnerPhase.stepsLeft, overLimit, rollback, Counter.rank]
  | charging job counter =>
    cases counter <;> simp [ownerStep, howner, OwnerPhase.stepsLeft, Counter.rank, Counter.next]
  | sending job =>
    simp only [ownerStep, howner]
    split <;> simp [OwnerPhase.stepsLeft, Counter.rank]
  | refunding job counter =>
    cases counter <;>
      simp [ownerStep, howner, OwnerPhase.stepsLeft, Counter.rank, Counter.next, rollback]

theorem iterate_idle : ∀ (n : Nat) (s : Background), s.owner.stepsLeft ≤ n →
    ((ownerStep limits)^[n] s).owner = .idle
  | 0, _, h => owner_of_stepsLeft (Nat.le_zero.mp h)
  | n + 1, s, h => by
    rw [iterate_succ_apply]
    refine iterate_idle n _ ?_
    have hstep : (s.ownerStep limits).owner.stepsLeft ≤ s.owner.stepsLeft - 1 :=
      ownerStep_stepsLeft s
    omega

theorem ownerStep_of_idle (h : s.owner = .idle) : s.ownerStep limits = s := by
  simp only [ownerStep, h]

/-- Some steps of the owner in a row lead from `s` to `t`. -/
def Reaches (limits : BackgroundLimits) (s t : Background) : Prop :=
  ∃ n, (ownerStep limits)^[n] s = t

theorem Reaches.refl (s : Background) : s.Reaches limits s := ⟨0, rfl⟩

theorem Reaches.head (h : (s.ownerStep limits).Reaches limits t) : s.Reaches limits t := by
  obtain ⟨n, hn⟩ := h
  exact ⟨n + 1, hn⟩

theorem Reaches.trans (h : s.Reaches limits t) (h' : t.Reaches limits u) : s.Reaches limits u := by
  obtain ⟨n, rfl⟩ := h
  obtain ⟨m, rfl⟩ := h'
  exact ⟨m + n, iterate_add_apply ..⟩

/-- The call ends in the idle state that its steps reach. -/
theorem dispatchNext_eq (howner : s.owner = .idle)
    (h : { s with owner := .draining defaultCompletionDrainBudget true }.Reaches limits t)
    (ht : t.owner = .idle) : s.dispatchNext limits = t := by
  obtain ⟨n, hn⟩ := h
  have hcall : s.step limits .dispatchNext =
      { s with owner := .draining defaultCompletionDrainBudget true } := by
    simp only [step, call, howner]
  -- both ends are idle, and an idle owner stays where it is
  rw [dispatchNext, hcall, ← hn]
  exact iterate_fixed_unique (ownerStep_of_idle (iterate_idle _ _ le_rfl))
    (ownerStep_of_idle (hn ▸ ht))

/-! ## One call without a worker at work -/

/-- The state after a request has been taken from the queue. -/
def took (s : Background) (phase : OwnerPhase) : Background :=
  { s with slot := true, system := s.system.step .beginNext, owner := phase }

/-- A check of the limits with nothing charged. -/
theorem Resting.weighed (limits : BackgroundLimits) (h : s.Resting) (job : Job) (last : Bool) :
    (s.took (.weighing job last)).Reaches limits
      (if job.affordable limits then
        s.took (if last then .charging job .jobs else .weighing job true)
      else (s.took .idle).overLimit job last) := by
  have hover : ∀ phase, (s.took phase).overLimit job last = (s.took .idle).overLimit job last := by
    intro phase
    cases last <;> rfl
  have hsnapshots : (s.took (.weighing job last)).ownerStep limits =
      if s.hasRoom limits job .snapshots then s.took (.fitting job last)
      else (s.took (.weighing job last)).overLimit job last := rfl
  have hir : (s.took (.fitting job last)).ownerStep limits =
      if s.hasRoom limits job .ir then
        s.took (if last then .charging job .jobs else .weighing job true)
      else (s.took (.fitting job last)).overLimit job last := rfl
  rw [h.hasRoom, hover] at hsnapshots hir
  refine .head ?_
  rw [hsnapshots]
  by_cases hfirst : job.weight limits .snapshots ≤ limits.limit .snapshots
  · rw [if_pos (decide_eq_true hfirst)]
    refine .head ?_
    rw [hir]
    by_cases hsecond : job.weight limits .ir ≤ limits.limit .ir
    · rw [if_pos (decide_eq_true hsecond), if_pos ((affordable_iff job).mpr ⟨hfirst, hsecond⟩)]
      exact .refl _
    · rw [if_neg (by simpa using hsecond), if_neg fun hfit => hsecond ((affordable_iff job).mp hfit).2]
      exact .refl _
  · rw [if_neg (by simpa using hfirst), if_neg fun hfit => hfirst ((affordable_iff job).mp hfit).1]
    exact .refl _

/-- With nothing charged, a job that passed the checks is handed over. -/
theorem Resting.handsOver (limits : BackgroundLimits) (h : s.Resting) (job : Job) :
    ∃ t : Background, (s.took (.charging job .jobs)).Reaches limits t ∧ t.owner = .idle ∧
      t.handed = s.handed ++ [⟨s.handed.length, job⟩] := by
  refine ⟨_, .head (.head (.head (.head (.refl _)))), ?_, ?_⟩
  all_goals
    simp only [ownerStep, took, charge, Counter.next, Option.elim, h.jobs, List.length_nil,
      if_pos limits.pending_pos]

/-- A call up to the check of the first wanted request. -/
theorem Resting.opens (limits : BackgroundLimits) (h : s.Resting) :
    { s with owner := .draining defaultCompletionDrainBudget true }.Reaches limits
      (s.took (match s.system.coordinator.beginNext.2 with
        | some request => .weighing ⟨request, s.retained request.attemptId⟩ false
        | none => .idle)) := by
  have hdrained : { s with owner := .draining defaultCompletionDrainBudget true }.ownerStep limits =
      { s with owner := .opened } := by
    simp only [ownerStep, h.overflow, if_true]
    rfl
  have hvacant : { s with owner := .opened }.ownerStep limits = { s with owner := .vacant } := by
    have hpos := limits.workers_pos
    have husage := h.usage .jobs
    simp only [ownerStep]
    rw [if_neg (by omega)]
  refine .head ?_
  rw [hdrained]
  refine .head ?_
  rw [hvacant]
  exact .head (.refl _)

end Background

/-! ## Repeated calls -/

namespace Coordinator

variable {c : Coordinator} {r : CompileRequest}

theorem beginNext_eq_firstWanted (c : Coordinator) : c.beginNext.2 = c.firstWanted := by
  rw [firstWanted, List.find?_eq_head?_dropWhile_not]
  unfold beginNext
  cases c.queue.dropWhile fun request => !c.isWanted request <;> rfl

theorem firstWanted_cleared (hnone : c.firstWanted = none) : c.beginNext.1.firstWanted = none := by
  rw [firstWanted, List.find?_eq_head?_dropWhile_not] at hnone
  unfold beginNext
  cases hqueue : c.queue.dropWhile fun request => !c.isWanted request with
  | nil => rfl
  | cons request queue =>
    rw [hqueue] at hnone
    cases hnone

/-- A request rolled back at once is the first wanted one again. -/
theorem firstWanted_rollback (hr : c.firstWanted = some r) :
    (c.beginNext.1.rollback r).firstWanted = some r := by
  have hwanted : c.isWanted r = true := List.find?_some hr
  rw [firstWanted, List.find?_eq_head?_dropWhile_not] at hr
  unfold beginNext
  cases hqueue : c.queue.dropWhile fun request => !c.isWanted request with
  | nil =>
    rw [hqueue] at hr
    cases hr
  | cons request queue =>
    rw [hqueue] at hr
    obtain rfl := Option.some.inj hr
    simp only [rollback, update_self, Option.any_some, CompileRequest.flight, decide_true,
      Bool.and_self, if_true, firstWanted]
    refine List.find?_cons_of_pos ?_
    simp only [isWanted, OrdMap.get?_modify, if_true, Option.any_map] at hwanted ⊢
    cases hrecord : c.functions.get? request.key with
    | none =>
      rw [hrecord] at hwanted
      cases hwanted
    | some f =>
      have hstate := congrFun (state_setState (f.setState request.tier (.compiling request.tier))
        request.tier (.queued request.tier)) request.tier
      rw [update_self] at hstate
      simpa using hstate

end Coordinator

namespace Background

variable [TypeSizes] {limits : BackgroundLimits} {s : Background}

/-- Whether the first wanted request fits the limits without its inline bodies. -/
def firstFits (limits : BackgroundLimits) (s : Background) : Bool :=
  s.system.coordinator.firstWanted.any fun request =>
    (Job.mk request (s.retained request.attemptId)).discardInlineSnapshots.affordable limits

theorem Resting.opens_none (limits : BackgroundLimits) (h : s.Resting)
    (hr : s.system.coordinator.firstWanted = none) :
    { s with owner := .draining defaultCompletionDrainBudget true }.Reaches limits
      (s.took .idle) := by
  have hopens := h.opens limits
  rw [Coordinator.beginNext_eq_firstWanted, hr] at hopens
  exact hopens

theorem Resting.opens_some (limits : BackgroundLimits) (h : s.Resting) {request : CompileRequest}
    (hr : s.system.coordinator.firstWanted = some request) :
    { s with owner := .draining defaultCompletionDrainBudget true }.Reaches limits
      (s.took (.weighing ⟨request, s.retained request.attemptId⟩ false)) := by
  have hopens := h.opens limits
  rw [Coordinator.beginNext_eq_firstWanted, hr] at hopens
  exact hopens

omit [TypeSizes] in
theorem firstFits_some {request : CompileRequest}
    (hr : s.system.coordinator.firstWanted = some request) : s.firstFits limits =
      (Job.mk request (s.retained request.attemptId)).discardInlineSnapshots.affordable limits := by
  rw [firstFits, hr, Option.any_some]

omit [TypeSizes] in
theorem discard_rolledBack (s : Background) (request : CompileRequest) :
    let job := (Job.mk request (s.retained request.attemptId)).discardInlineSnapshots
    (Job.mk request ((s.rollback job).retained request.attemptId)).discardInlineSnapshots = job := by
  simp [rollback, Job.discardInlineSnapshots, Retained.discardInlineSnapshots]

/-- The first wanted request is handed over if it fits. -/
theorem Resting.dispatchNext_hands (h : s.Resting) (hfits : s.firstFits limits = true) :
    ∃ job, (s.dispatchNext limits).handed = s.handed ++ [job] := by
  cases hr : s.system.coordinator.firstWanted with
  | none =>
    rw [firstFits, hr] at hfits
    cases hfits
  | some request =>
    rw [firstFits_some hr] at hfits
    have hopens := h.opens_some limits hr
    generalize Job.mk request (s.retained request.attemptId) = job at hopens hfits
    -- whether the first check passes only decides if the inline bodies stay
    have hfirst := h.weighed limits job false
    obtain ⟨job', hjob'⟩ : ∃ job', (s.took (.weighing job false)).Reaches limits
        (s.took (.charging job' .jobs)) := by
      by_cases hfull : job.affordable limits = true
      · rw [if_pos hfull] at hfirst
        have hlast := h.weighed limits job true
        rw [if_pos hfull] at hlast
        exact ⟨job, hfirst.trans hlast⟩
      · rw [if_neg hfull] at hfirst
        have hlast := h.weighed limits job.discardInlineSnapshots true
        rw [if_pos hfits] at hlast
        exact ⟨job.discardInlineSnapshots, hfirst.trans hlast⟩
    obtain ⟨t, hreach, hidle, hhanded⟩ := h.handsOver limits job'
    rw [dispatchNext_eq h.owner (hopens.trans (hjob'.trans hreach)) hidle, hhanded]
    exact ⟨_, rfl⟩

/-- Otherwise nothing is handed over, and the next call finds the same. -/
theorem Resting.dispatchNext_blocked (h : s.Resting) (hfits : s.firstFits limits = false) :
    (s.dispatchNext limits).Resting ∧ (s.dispatchNext limits).firstFits limits = false ∧
      (s.dispatchNext limits).handed = s.handed := by
  cases hr : s.system.coordinator.firstWanted with
  | none =>
    rw [dispatchNext_eq h.owner (h.opens_none limits hr) rfl]
    refine ⟨⟨rfl, h.overflow, h.jobs, h.usage⟩, ?_, rfl⟩
    have hnone : (s.took .idle).system.coordinator.firstWanted = none :=
      Coordinator.firstWanted_cleared hr
    rw [firstFits, hnone]
    rfl
  | some request =>
    rw [firstFits_some hr] at hfits
    have hfull : ¬ (Job.mk request (s.retained request.attemptId)).affordable limits = true :=
      fun hfull => by simp [affordable_discard hfull] at hfits
    have hfirst := h.weighed limits ⟨request, s.retained request.attemptId⟩ false
    have hlast := h.weighed limits
      (Job.mk request (s.retained request.attemptId)).discardInlineSnapshots true
    rw [if_neg hfull] at hfirst
    rw [if_neg (by simp [hfits])] at hlast
    rw [dispatchNext_eq h.owner ((h.opens_some limits hr).trans (hfirst.trans hlast)) rfl]
    refine ⟨⟨rfl, h.overflow, h.jobs, h.usage⟩, ?_, rfl⟩
    have hagain : ((s.took .idle).overLimit
        (Job.mk request (s.retained request.attemptId)).discardInlineSnapshots
        true).system.coordinator.firstWanted = some request :=
      Coordinator.firstWanted_rollback hr
    rw [firstFits_some hagain, ← hfits]
    exact congrArg (Job.affordable limits) (discard_rolledBack (s.took .idle) request)

theorem Resting.dispatches_blocked (h : s.Resting) (hfits : s.firstFits limits = false)
    (n : Nat) : ((dispatchNext limits)^[n] s).handed = s.handed := by
  induction n generalizing s with
  | zero => rfl
  | succ n ih =>
    obtain ⟨hrest, hagain, hhanded⟩ := h.dispatchNext_blocked hfits
    rw [iterate_succ_apply, ih hrest hagain, hhanded]

/-- Nothing that has been handed over is taken back. -/
theorem ownerStep_handed (s : Background) : s.handed <+: (s.ownerStep limits).handed := by
  cases howner : s.owner with
  | sending job =>
    simp only [ownerStep, howner]
    split
    · exact List.prefix_append _ _
    · exact List.prefix_rfl
  | draining budget dispatching =>
    simp only [ownerStep, howner]
    split <;> exact List.prefix_rfl
  | receiving budget =>
    simp only [ownerStep, howner]
    split <;> exact List.prefix_rfl
  | opened =>
    simp only [ownerStep, howner]
    split <;> exact List.prefix_rfl
  | weighing job last =>
    simp only [ownerStep, howner]
    split <;> cases last <;> exact List.prefix_rfl
  | fitting job last =>
    simp only [ownerStep, howner]
    split <;> cases last <;> exact List.prefix_rfl
  | refunding job counter =>
    simp only [ownerStep, howner]
    cases counter <;> exact List.prefix_rfl
  | _ =>
    simp only [ownerStep, howner]
    exact List.prefix_rfl

theorem dispatchNext_handed (s : Background) : s.handed <+: (s.dispatchNext limits).handed := by
  have hiterate : ∀ (n : Nat) (t : Background), t.handed <+: ((ownerStep limits)^[n] t).handed := by
    intro n
    induction n with
    | zero => exact fun _ => List.prefix_rfl
    | succ n ih => exact fun t => (ownerStep_handed t).trans (ih _)
  have hcall : (s.step limits .dispatchNext).handed = s.handed := by
    simp only [step, call]
    split <;> rfl
  exact hcall ▸ hiterate _ _

theorem dispatches_handed (n : Nat) (s : Background) :
    s.handed <+: ((dispatchNext limits)^[n] s).handed := by
  induction n generalizing s with
  | zero => exact List.prefix_rfl
  | succ n ih => exact (dispatchNext_handed s).trans (ih _)

/-- In a reachable state without a job, with the owner idle and no completion
in the overflow list, as many calls as the queue is long hand a request over if
and only if the first request that is still wanted fits. -/
theorem dispatches_iff (limits : BackgroundLimits) (maxQueueLen maxAttempts : Nat)
    (cacheLimits : CacheLimits) (environment : ArtifactEnvironment) (retained : Nat → Retained)
    (events : List BackgroundEvent) :
    let s := runs (step limits) (start maxQueueLen maxAttempts cacheLimits environment retained) events
    s.owner = .idle → s.jobs = [] → s.working = [] → s.overflow = [] →
    (s.handed.length <
        ((dispatchNext limits)^[s.system.coordinator.queue.length] s).handed.length ↔
      s.firstFits limits = true) := by
  intro s howner hjobs hworking hoverflow
  have hrest : s.Resting :=
    (runs_balanced (start_balanced ..) events).resting howner hoverflow hjobs hworking
  constructor
  · intro hlt
    by_contra hfits
    rw [hrest.dispatches_blocked (by simpa using hfits)] at hlt
    exact Nat.lt_irrefl _ hlt
  · intro hfits
    obtain ⟨job, hjob⟩ := hrest.dispatchNext_hands hfits
    cases hqueue : s.system.coordinator.queue with
    | nil => simp [firstFits, Coordinator.firstWanted, hqueue] at hfits
    | cons request queue =>
      have hlater : (s.dispatchNext limits).handed.length ≤
          ((dispatchNext limits)^[queue.length] (s.dispatchNext limits)).handed.length :=
        (dispatches_handed queue.length _).length_le
      rw [hjob, List.length_append] at hlater
      rw [List.length_cons, Function.iterate_succ_apply]
      exact Nat.lt_of_lt_of_le (by simp) hlater

end Background

open Sample

/-- Limits that leave room for 31 bytes of snapshot. -/
def sampleBackgroundLimits : BackgroundLimits where
  workerCount := 1
  maxPendingJobs := 1
  maxSnapshotBytes := 1000
  maxIrBytes := 1000
  maxCompletionLen := 8
  constantBytes := 16
  workers_pos := by decide
  pending_pos := by decide

/-- The request of one attempt keeps 32 bytes of array feedback, the others
nothing. -/
def sampleRetained (heavy attemptId : Nat) : Retained :=
  ⟨if attemptId = heavy then 32 else 0, [], []⟩

/-- Ask for the baselines of two functions. -/
def twoBaselines : List BackgroundEvent :=
  [.coordinate (sampleQueue ⟨1, 1⟩ .baseline 0), .coordinate (sampleQueue ⟨2, 1⟩ .baseline 0)]

/-- The second of two requests is too large; the first is handed over. -/
theorem dispatches_iff_first :
    let s := runs (Background.step sampleBackgroundLimits)
      (.start 8 3 (.shared 1000) sampleEnvironment (sampleRetained 2)) twoBaselines
    s.handed.length < ((Background.dispatchNext sampleBackgroundLimits)^[
      s.system.coordinator.queue.length] s).handed.length := by
  intro s
  exact (Background.dispatches_iff sampleBackgroundLimits 8 3 _ _ (sampleRetained 2) twoBaselines
    rfl rfl rfl rfl).mpr (by decide +kernel)

/-- The first of two requests is too large: however often `dispatch_next` is
called, the second, which fits, is not handed over. -/
theorem unaffordable_first_blocks :
    let s := runs (Background.step sampleBackgroundLimits)
      (.start 8 3 (.shared 1000) sampleEnvironment (sampleRetained 1)) twoBaselines
    (s.owner = .idle ∧ s.jobs = [] ∧ s.working = [] ∧ s.overflow = []) ∧
      (∃ request ∈ s.system.coordinator.queue,
        (Job.mk request (s.retained request.attemptId)).discardInlineSnapshots.affordable
          sampleBackgroundLimits = true) ∧
      ∀ n, ((Background.dispatchNext sampleBackgroundLimits)^[n] s).handed = [] := by
  intro s
  refine ⟨⟨rfl, rfl, rfl, rfl⟩, ?_, ?_⟩
  · exact List.any_eq_true.mp (by decide +kernel)
  · exact Background.Resting.dispatches_blocked ⟨rfl, rfl, rfl, fun _ => rfl⟩ (by decide +kernel)

end QuickJit
