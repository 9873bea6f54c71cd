import QuickJit.Runtime.SystemRuns

/-
  The background compiler: the owner thread and its workers.

  A `Background` is a coordinator, the job channel with the workers behind it,
  the completion channel and the overflow list, and the counters that the
  threads share. Each step of a thread touches one shared location; what a
  thread does by itself in between belongs to the step before it. The owner's
  place in `dispatch_next`, in `drain_overflow` or in the drain of the
  completion channel is its phase, and so is a worker's place in its loop.

  A run interleaves the steps of the owner and of the workers in any order, up
  to the shutdown. How a compile job ends (with an artifact, a failure or a
  panic) is part of the event.

  The size of a request saturates as in the source. The usage counters are
  integers, so that a subtraction that underflows would leave a negative one.
  Their sums are over requests that are in memory together, so they fit a
  `usize` and neither wrap nor saturate.

  Hand-overs are numbered. The tickets, `handed` and `passed` are read by no
  thread.
-/

namespace QuickJit

/-! ## Requests and their size -/

/-- What a request keeps alive besides its snapshot: the bytes of its array
feedback, of the body each direct call target may carry, and of each frame it
may inline. -/
structure Retained where
  arrayFeedbackBytes : Nat
  directCallTargets : List (Option Nat)
  frameInlineTargets : List Nat
  deriving DecidableEq, Repr

def Retained.discardInlineSnapshots (r : Retained) : Retained :=
  { r with directCallTargets := r.directCallTargets.map fun _ => none, frameInlineTargets := [] }

/-- A request that has left the queue. -/
structure Job where
  request : CompileRequest
  retained : Retained

/-- The counters of `WorkerUsage`, in the order they are charged and released. -/
inductive Counter where
  | jobs
  | snapshots
  | ir
  deriving DecidableEq, Repr

def Counter.rank : Counter → Nat
  | .jobs => 0
  | .snapshots => 1
  | .ir => 2

/-- The counter charged after this one. -/
def Counter.next : Counter → Option Counter
  | .jobs => some .snapshots
  | .snapshots => some .ir
  | .ir => none

/-- The limits of a background compiler, which refuses to be made without
workers or room for a job, and the length of the completion channel. -/
structure BackgroundLimits where
  workerCount : Nat
  maxPendingJobs : Nat
  maxSnapshotBytes : Nat
  maxIrBytes : Nat
  maxCompletionLen : Nat
  /-- The size of a `ConstantDescriptor`. -/
  constantBytes : Nat
  workers_pos : 0 < workerCount
  pending_pos : 0 < maxPendingJobs

def BackgroundLimits.limit (limits : BackgroundLimits) : Counter → Nat
  | .jobs => limits.workerCount
  | .snapshots => limits.maxSnapshotBytes
  | .ir => limits.maxIrBytes

def CompileSnapshot.ownedBytes (snapshot : CompileSnapshot) (constantBytes : Nat) : Nat :=
  satAdd (satAdd (satAdd snapshot.bytecode.length snapshot.exceptionMap.length)
    snapshot.sourceMap.length) (satMul snapshot.constants.length constantBytes)

namespace Job

variable (limits : BackgroundLimits)

def snapshotBytes (job : Job) : Nat :=
  let bytes := satAdd (job.request.snapshot.snapshot.ownedBytes limits.constantBytes)
    job.retained.arrayFeedbackBytes
  let bytes := job.retained.directCallTargets.foldl (fun total body => satAdd total (body.getD 0)) bytes
  job.retained.frameInlineTargets.foldl (fun total body => satAdd total body) bytes

def discardInlineSnapshots (job : Job) : Job :=
  { job with retained := job.retained.discardInlineSnapshots }

/-- What a job is charged. -/
def weight (job : Job) : Counter → Nat
  | .jobs => 1
  | .snapshots => job.snapshotBytes limits
  | .ir => satMul (job.snapshotBytes limits) 32

end Job

/-! ## Threads -/

/-- A value that belongs to a hand-over. -/
structure Ticketed (α : Type) where
  ticket : Nat
  value : α

inductive OwnerPhase where
  | idle
  /-- `drain_overflow`, alone or at the start of `dispatch_next`. -/
  | draining (budget : Nat) (dispatching : Bool)
  /-- `drain_completions_with_budget`. -/
  | receiving (budget : Nat)
  /-- A completion has been received and is still counted as pending. -/
  | landed (completion : Ticketed CompileCompletion) (budget : Nat)
  /-- About to load `jobs`. -/
  | opened
  /-- About to set the completion slot and take a request. -/
  | vacant
  /-- `within_limits`, about to load `snapshots`; the second check is the last. -/
  | weighing (job : Job) (last : Bool)
  /-- `within_limits`, about to load `ir`. -/
  | fitting (job : Job) (last : Bool)
  | charging (job : Job) (counter : Counter)
  | sending (job : Job)
  | refunding (job : Job) (counter : Counter)

/-- Where a worker is with its job. -/
inductive WorkerPhase where
  | received
  | compiled (completion : CompileCompletion)
  /-- The completion is counted as pending and not yet sent. -/
  | announced (completion : CompileCompletion)
  /-- The completion channel was full. -/
  | refused (completion : CompileCompletion)
  /-- A refused completion is no longer counted as pending. -/
  | withdrawn (completion : CompileCompletion)
  /-- The guard is about to release this counter. -/
  | releasing (counter : Counter)

structure Worker where
  job : Ticketed Job
  phase : WorkerPhase

structure Background where
  system : JitSystem
  /-- What the request of each attempt keeps alive. -/
  retained : Nat → Retained
  /-- Whether `completion_slot` holds a sender. -/
  slot : Bool
  jobs : List (Ticketed Job)
  /-- The workers with a job, in any order. -/
  working : List Worker
  completions : List (Ticketed CompileCompletion)
  overflow : List (Ticketed CompileCompletion)
  pending : Nat
  usage : Counter → Int
  owner : OwnerPhase
  handed : List (Ticketed Job)
  passed : List (Ticketed CompileCompletion)

/-- The completion a worker reports. -/
def Job.completion (job : Job) (result : Except CompileFailure CompiledArtifact) :
    CompileCompletion where
  key := job.request.key
  requestedTier := job.request.tier
  artifactKey := job.request.artifactKey
  attemptId := job.request.attemptId
  result := result

/-- `DEFAULT_COMPLETION_DRAIN_BUDGET`. -/
def defaultCompletionDrainBudget : Nat := 64

namespace Background

/-- A new background compiler of a new coordinator. -/
def start (maxQueueLen maxAttempts : Nat) (cacheLimits : CacheLimits)
    (environment : ArtifactEnvironment) (retained : Nat → Retained) : Background where
  system := .start maxQueueLen maxAttempts cacheLimits environment
  retained := retained
  slot := false
  jobs := []
  working := []
  completions := []
  overflow := []
  pending := 0
  usage _ := 0
  owner := .idle
  handed := []
  passed := []

section

variable [TypeSizes]

/-- Pass a completion to the coordinator. -/
def pass (s : Background) (completion : Ticketed CompileCompletion) : Background :=
  { s with
    system := s.system.step (.complete completion.value)
    passed := s.passed ++ [completion] }

/-- Put the request of a job back in front of the queue. -/
def rollback (s : Background) (job : Job) : Background :=
  { s with
    system := { s.system with coordinator := s.system.coordinator.rollback job.request }
    retained := Function.update s.retained job.request.attemptId job.retained
    owner := .idle }

/-- `fetch_add`, or `fetch_sub` of a negative amount. -/
def charge (s : Background) (counter : Counter) (amount : Int) : Background :=
  { s with usage := Function.update s.usage counter (s.usage counter + amount) }

/-- After a check of `within_limits` that failed. -/
def overLimit (s : Background) (job : Job) : Bool → Background
  | false => { s with owner := .weighing job.discardInlineSnapshots true }
  | true => s.rollback job

variable (limits : BackgroundLimits)

/-- Whether a counter has room for a job. -/
def hasRoom (s : Background) (job : Job) (counter : Counter) : Bool :=
  s.usage counter + job.weight limits counter ≤ limits.limit counter

/-- The next step of the owner. -/
def ownerStep (s : Background) : Background :=
  match s.owner with
  | .idle => s
  | .draining budget dispatching =>
    match budget, s.overflow with
    | budget + 1, completion :: overflow =>
      { s with overflow, owner := .draining budget dispatching }.pass completion
    | _, _ => { s with owner := if dispatching then .opened else .idle }
  | .receiving budget =>
    match budget, s.completions with
    | budget + 1, completion :: completions =>
      { s with completions, owner := .landed completion budget }
    | _, _ => { s with owner := .idle }
  | .landed completion budget =>
    { s with pending := s.pending - 1, owner := .receiving budget }.pass completion
  | .opened =>
    if (limits.workerCount : Int) ≤ s.usage .jobs then { s with owner := .idle }
    else { s with owner := .vacant }
  | .vacant =>
    { s with
      slot := true
      system := s.system.step .beginNext
      owner := match s.system.coordinator.beginNext.2 with
        | some request => .weighing ⟨request, s.retained request.attemptId⟩ false
        | none => .idle }
  | .weighing job last =>
    if s.hasRoom limits job .snapshots then { s with owner := .fitting job last }
    else s.overLimit job last
  | .fitting job last =>
    if s.hasRoom limits job .ir then
      { s with owner := if last then .charging job .jobs else .weighing job true }
    else s.overLimit job last
  | .charging job counter =>
    { s.charge counter (job.weight limits counter) with
      owner := counter.next.elim (.sending job) (.charging job) }
  | .sending job =>
    if s.jobs.length < limits.maxPendingJobs then
      { s with
        jobs := s.jobs ++ [⟨s.handed.length, job⟩]
        handed := s.handed ++ [⟨s.handed.length, job⟩]
        owner := .idle }
    else { s with owner := .refunding job .jobs }
  | .refunding job counter =>
    match counter.next with
    | some counter' =>
      { s.charge counter (-job.weight limits counter) with owner := .refunding job counter' }
    | none => (s.charge counter (-job.weight limits counter)).rollback job

/-- The step of a worker in some phase, taken off the list of workers. -/
def workerStep (s : Background) (worker : Worker)
    (result : Except CompileFailure CompiledArtifact) : Background :=
  let become (s : Background) (phase : WorkerPhase) : Background :=
    { s with working := { worker with phase } :: s.working }
  match worker.phase with
  | .received =>
    become s (if s.slot then .compiled (worker.job.value.completion result) else .releasing .jobs)
  | .compiled completion => become { s with pending := s.pending + 1 } (.announced completion)
  | .announced completion =>
    if s.completions.length < limits.maxCompletionLen then
      become { s with completions := s.completions ++ [⟨worker.job.ticket, completion⟩] }
        (.releasing .jobs)
    else become s (.refused completion)
  | .refused completion => become { s with pending := s.pending - 1 } (.withdrawn completion)
  | .withdrawn completion =>
    become { s with overflow := s.overflow ++ [⟨worker.job.ticket, completion⟩] } (.releasing .jobs)
  | .releasing counter =>
    let s := s.charge counter (-worker.job.value.weight limits counter)
    match counter.next with
    | some counter' => become s (.releasing counter')
    | none => s

end

end Background

/-! ## Runs -/

/-- What may happen next. -/
inductive BackgroundEvent where
  /-- The owner uses the coordinator otherwise. -/
  | coordinate (op : CoordinatorOp)
  | dispatchNext
  | drainOverflow (budget : Nat)
  | drainCompletions (budget : Nat)
  | owner
  /-- A free worker receives a job. -/
  | receive
  | worker (index : Nat) (result : Except CompileFailure CompiledArtifact)

/-- The operations that belong to the background compiler, or end it. -/
def CoordinatorOp.isBackground : CoordinatorOp → Bool
  | .beginNext | .rollback _ | .complete _ | .shutDown => true
  | _ => false

namespace Background

variable [TypeSizes] (limits : BackgroundLimits)

/-- Begin a call of the owner, if it is not in one. -/
def call (s : Background) (phase : OwnerPhase) : Background :=
  match s.owner with
  | .idle => { s with owner := phase }
  | _ => s

def step (s : Background) : BackgroundEvent → Background
  | .coordinate op =>
    match s.owner with
    | .idle => if op.isBackground then s else { s with system := s.system.step op }
    | _ => s
  | .dispatchNext => s.call (.draining defaultCompletionDrainBudget true)
  | .drainOverflow budget => s.call (.draining budget false)
  | .drainCompletions budget => s.call (.receiving budget)
  | .owner => s.ownerStep limits
  | .receive =>
    match s.jobs with
    | [] => s
    | job :: jobs => { s with jobs, working := ⟨job, .received⟩ :: s.working }
  | .worker index result =>
    match s.working[index]? with
    | none => s
    | some worker =>
      { s with working := s.working.eraseIdx index }.workerStep limits worker result

end Background

end QuickJit
