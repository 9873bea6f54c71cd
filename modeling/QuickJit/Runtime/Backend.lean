import QuickJit.Runtime.Standing

/-
  The production backend: what QuickJS calls, and the epoch of its entry cache.

  A `ProductionBackend` is the coordinator with the state that decides how a
  callback uses it. QuickJS keeps entry handles as long as the epoch stays the
  same, so a callback that changes what is installed has to change the epoch.
  `maintenance` does that first and then applies completions, refreshes
  baselines, looks through the candidates for the optimizing tier and hands
  requests to the workers.

  What the feedback tables, the hotness counters, the timers and the workers
  decide is part of the callback (`MaintenancePlan` and the other arguments): a
  run covers every such decision. `installs` records the artifacts installed;
  no callback reads it.
-/

namespace QuickJit

/-- `matches!(state, CompileState::Installed(_))`. -/
def CompileState.isInstalled : CompileState → Bool
  | .installed _ => true
  | _ => false

/-! ## Decisions -/

/-- A baseline to be compiled again with the feedback of its sites. -/
structure Refresh where
  key : FunctionKey
  snapshot : VerifiedSnapshot
  feedback : FeedbackSnapshot
  targets : CallTargets

/-- What the scan decides about a candidate for the optimizing tier. -/
inductive Verdict where
  /-- It waits for feedback or for a callee. -/
  | deferred
  /-- Tier 2 can never translate it. -/
  | untranslatable (key : FunctionKey)
  /-- It only makes generic calls. -/
  | genericCall (key : FunctionKey)
  /-- A trial is not worth it; its retries are used up, or not. -/
  | unprofitable (key : FunctionKey) (exhausted entryDominated : Bool)
  | approved (key : FunctionKey) (snapshot : VerifiedSnapshot) (feedback : FeedbackSnapshot)
      (targets : CallTargets)

/-- A candidate, and the call targets that are looked up for it. -/
structure Candidate where
  probes : List (FunctionKey × Tier)
  verdict : Verdict

/-- One call of `dispatch_next`: the overflow it drains, whether it returns then
because every worker is busy or the workers are shut down, and whether the
request it takes is rolled back. -/
structure Dispatched where
  overflow : List CompileCompletion
  busy : Bool
  rolledBack : Bool

/-- The decisions of a maintenance pass. -/
structure MaintenancePlan where
  completions : List CompileCompletion
  /-- The call targets that are looked up for a refresh. -/
  probes : List (FunctionKey × Tier)
  refreshes : List Refresh
  candidates : List Candidate
  overflow : List CompileCompletion
  dispatches : List Dispatched

/-- What becomes of a submitted snapshot. -/
inductive Submission where
  /-- The copy or the verification failed. -/
  | invalid (key : FunctionKey)
  | overLimit (key : FunctionKey)
  /-- Tier 1 does not take it. -/
  | rejected (key : FunctionKey)
  /-- It was asked for by the optimizing tier, and waits for the scan. -/
  | parked
  | queued (key : FunctionKey) (snapshot : VerifiedSnapshot) (feedback : FeedbackSnapshot)
      (targets : CallTargets)

inductive ExitKind where
  | done
  | retryInterpreter
  | deopt
  | other
  deriving DecidableEq, Repr

/-- What a native exit reports, with the verdict of the timers. -/
structure NativeExit where
  key : FunctionKey
  kind : ExitKind
  unpaired : Bool
  /-- The time saved against the average baseline execution. -/
  savedNs : Nat
  /-- Whether the trial of the optimizing tier has just been lost. -/
  loss : Bool
  guard : Option (Nat × Option ObservedType)
  /-- Where the interpreter resumes after the guard. -/
  guardPc : Option Nat
  feedback : FeedbackSnapshot

/-- `HOT_MAINTENANCE_INTERVAL`. -/
def hotMaintenanceInterval : Nat := 64

structure ProductionBackend where
  system : JitSystem
  entryCacheEpoch : Nat
  /-- The copy in `fast_entry` that granted handles compare. -/
  fastEntryEpoch : Nat
  clock : Nat
  hotTicksSinceMaintenance : Nat
  feedbackDisabled : FunctionKey → Bool
  profitabilityBlacklisted : FunctionKey → Bool
  tier2Sources : FunctionKey → Option VerifiedSnapshot
  entryTiers : FunctionKey → Option Tier
  executionStarts : List (FunctionKey × Tier)
  installs : List ArtifactKey

namespace ProductionBackend

def new (maxQueueLen maxAttempts : Nat) (limits : CacheLimits) (environment : ArtifactEnvironment) :
    ProductionBackend where
  system := .start maxQueueLen maxAttempts limits environment
  entryCacheEpoch := 1
  fastEntryEpoch := 1
  clock := 0
  hotTicksSinceMaintenance := 0
  feedbackDisabled _ := false
  profitabilityBlacklisted _ := false
  tier2Sources _ := none
  entryTiers _ := none
  executionStarts := []
  installs := []

/-- The coordinator's view of a tier. -/
def tierState (b : ProductionBackend) (key : FunctionKey) (tier : Tier) : CompileState :=
  b.system.coordinator.tierState key tier

/-! ## Epochs -/

/-- The epoch after this one; 0 is the last. -/
def nextEpoch (epoch : Nat) : Nat :=
  if epoch = 0 then 0 else if epoch + 1 < 2 ^ 64 then epoch + 1 else 0

def invalidateEntryCache (b : ProductionBackend) : ProductionBackend :=
  { b with
    entryCacheEpoch := nextEpoch b.entryCacheEpoch
    fastEntryEpoch := nextEpoch b.entryCacheEpoch }

section

variable [TypeSizes] (b : ProductionBackend)

/-! ## Use of the coordinator -/

/-- The artifact an operation installs. -/
def installedBy : CoordinatorOp → List ArtifactKey
  | .complete completion => match (b.system.coordinator.complete completion).2 with
    | .installed _ => [completion.artifactKey]
    | _ => []
  | _ => []

def operate (op : CoordinatorOp) : ProductionBackend :=
  { b with system := b.system.step op, installs := b.installs ++ b.installedBy op }

def complete (b : ProductionBackend) (completions : List CompileCompletion) : ProductionBackend :=
  completions.foldl (fun b completion => b.operate (.complete completion)) b

/-- A readiness query: a pin that is dropped again. -/
def probe (target : FunctionKey × Tier) : ProductionBackend :=
  match (b.system.coordinator.pin target.1 target.2).2 with
  | some pin => (b.operate (.pin target.1 target.2)).operate (.dropPin pin)
  | none => b.operate (.pin target.1 target.2)

/-! ## Maintenance -/

/-- `prepare_baseline_direct_refresh`, and the request if it succeeds. -/
def refresh (r : Refresh) : ProductionBackend :=
  if (b.system.coordinator.prepareBaselineDirectRefresh r.key).2 then
    (b.operate (.prepareBaselineDirectRefresh r.key)).operate
      (.queue r.key .baseline r.snapshot r.feedback r.targets)
  else b.operate (.prepareBaselineDirectRefresh r.key)

def retireToInterpreter (key : FunctionKey) : ProductionBackend :=
  { b with
    feedbackDisabled := Function.update b.feedbackDisabled key true
    profitabilityBlacklisted := Function.update b.profitabilityBlacklisted key true }.operate
      (.demoteBaselineToInterpreter key)

/-- Queue a candidate that passed; a trial that replaces a retained baseline
goes first. -/
def approve (key : FunctionKey) (snapshot : VerifiedSnapshot)
    (feedback : FeedbackSnapshot) (targets : CallTargets) : ProductionBackend :=
  let queued := b.operate (.queue key .optimizing snapshot feedback targets)
  match (b.system.coordinator.queueWithFeedback key .optimizing snapshot feedback targets).2 with
  | .error _ => queued
  | .ok () =>
    let sourced := { queued with tier2Sources := Function.update b.tier2Sources key (some snapshot) }
    if b.profitabilityBlacklisted key && (queued.tierState key .baseline).isInstalled then
      sourced.operate (.prioritize key .optimizing)
    else sourced

def consider (candidate : Candidate) : ProductionBackend :=
  let b := candidate.probes.foldl probe b
  match candidate.verdict with
  | .deferred => b
  | .untranslatable key | .genericCall key => b.retireToInterpreter key
  | .unprofitable key exhausted entryDominated =>
    if exhausted then
      let b := { b with
        profitabilityBlacklisted := Function.update b.profitabilityBlacklisted key true }
      if entryDominated then b.operate (.demoteBaselineToInterpreter key) else b
    else b
  | .approved key snapshot feedback targets => b.approve key snapshot feedback targets

/-- `dispatch_next`. -/
def dispatchNext (d : Dispatched) : ProductionBackend :=
  let b := b.complete d.overflow
  if d.busy then b
  else
    let taken := b.operate .beginNext
    if d.rolledBack && b.system.coordinator.beginNext.2.isSome then taken.operate (.rollback 0)
    else taken

def maintenance (plan : MaintenancePlan) : ProductionBackend :=
  let b := b.invalidateEntryCache
  let b := { b with hotTicksSinceMaintenance := 0, clock := satAdd b.clock 1 }
  let b := b.operate (.advanceClock b.clock)
  let b := b.operate (.pollReclamation 64)
  let b := b.complete plan.completions
  let b := plan.probes.foldl probe b
  let b := plan.refreshes.foldl refresh b
  let b := plan.candidates.foldl consider b
  let b := b.complete plan.overflow
  plan.dispatches.foldl dispatchNext b

/-- `maintenance_if_due`; `due` says whether anything but the ticks calls for
it. -/
def maintenanceIfDue (due : Bool) (plan : MaintenancePlan) :
    ProductionBackend :=
  let b := { b with hotTicksSinceMaintenance := b.hotTicksSinceMaintenance + 1 }
  if hotMaintenanceInterval ≤ b.hotTicksSinceMaintenance || due then b.maintenance plan
  else
    let b := { b with clock := satAdd b.clock 1 }
    b.operate (.advanceClock b.clock)

/-! ## Callbacks -/

/-- `record_hot`. `probing` says whether the policy asks for a refresh of direct
calls, and `ready` whether the call targets allow it. -/
def recordHot (key : FunctionKey) (count : Nat) (due : Bool)
    (plan : MaintenancePlan) (probing : Bool) (probes : List (FunctionKey × Tier)) (ready : Bool) :
    ProductionBackend :=
  if count = 0 then b
  else if b.feedbackDisabled key || b.system.coordinator.isTerminallyBlacklisted key then
    { b with feedbackDisabled := Function.update b.feedbackDisabled key true }
  else
    let b := b.maintenanceIfDue due plan
    if probing && (b.tierState key .baseline).isInstalled then
      let b := probes.foldl probe b
      if ready then
        let refreshed := b.operate (.prepareBaselineDirectRefresh key)
        if (b.system.coordinator.prepareBaselineDirectRefresh key).2 then
          refreshed.invalidateEntryCache
        else refreshed
      else b
    else b

/-- `record_feedback`; `wellFormed` says whether the event passes the checks of
its size, its function and its types. The feedback itself is not part of the
state. -/
def recordFeedback (key : FunctionKey) (wellFormed : Bool) :
    ProductionBackend :=
  if !wellFormed || b.feedbackDisabled key then b
  else { b with clock := max (satAdd b.clock 1) 1 }

def submitSnapshot (submission : Submission) (plan : MaintenancePlan) :
    ProductionBackend :=
  match submission with
  | .invalid key => { b with feedbackDisabled := Function.update b.feedbackDisabled key true }
  | .overLimit _ | .parked => b.maintenance plan
  | .rejected key =>
    { b.operate (.rejectTier1 key .baseline) with
      feedbackDisabled := Function.update b.feedbackDisabled key true }.maintenance plan
  | .queued key snapshot feedback targets =>
    (b.operate (.queue key .baseline snapshot feedback targets)).maintenance plan

/-- `acquire_entry`; `usable` says whether the pinned artifact is published and
has an entry at the pc asked for. -/
def acquireEntry (key : FunctionKey) (due : Bool) (plan : MaintenancePlan)
    (usable : Bool) : ProductionBackend × Option (Tier × Address) :=
  if b.feedbackDisabled key then (b, none)
  else if b.profitabilityBlacklisted key && !(b.tierState key .optimizing).isInstalled &&
      !(b.tierState key .baseline).isInstalled then (b, none)
  else
    let b := b.maintenanceIfDue due plan
    let tier := if (b.tierState key .optimizing).isInstalled then .optimizing else .baseline
    match (b.system.coordinator.pin key tier).2 with
    | none => (b.operate (.pin key tier), none)
    | some pin =>
      let b := b.operate (.pin key tier)
      if usable then
        ({ b with entryTiers := Function.update b.entryTiers key (some tier) }, some (tier, pin))
      else (b.operate (.dropPin pin), none)

def nativeEnter (key : FunctionKey) : ProductionBackend :=
  { b with executionStarts := (key, (b.entryTiers key).getD .baseline) :: b.executionStarts }

/-- The timer an exit stops: the tier of the innermost execution, if it is of
this function. -/
def stoppedTier (exit : NativeExit) : Option Tier :=
  match b.executionStarts with
  | (active, tier) :: _ => if !exit.unpaired && active = exit.key then some tier else none
  | [] => none

/-- Stop the timer of an exit, and demote the optimizing tier after a lost
trial. -/
def settleTrial (exit : NativeExit) : ProductionBackend :=
  match b.stoppedTier exit with
  | none => b
  | some .baseline => { b with executionStarts := b.executionStarts.tail }
  | some .optimizing =>
    let b := { b with executionStarts := b.executionStarts.tail }
    let b := if exit.kind = .done ∧ exit.savedNs ≠ 0 then
        b.operate (.recordBenefit exit.key .optimizing exit.savedNs)
      else b
    if exit.loss then
      let demoted := b.operate (.demoteUnprofitableOptimized exit.key)
      if (b.system.coordinator.demoteUnprofitableOptimized exit.key).2 then
        demoted.invalidateEntryCache
      else demoted
    else b

/-- Account for a deopt, and queue a side path at the threshold. -/
def recordDeopt (exit : NativeExit) : ProductionBackend :=
  let b := b.invalidateEntryCache
  match exit.guard with
  | none => b
  | some (guard, observed) =>
    let counted := b.operate (.recordOptimizedSideExitProfile exit.key guard observed)
    match (b.system.coordinator.recordOptimizedSideExitProfile exit.key guard observed).2,
      b.tier2Sources exit.key with
    | .stablePathThreshold, some snapshot =>
      let probed := counted.probe (exit.key, .optimizing)
      match exit.guardPc, observed with
      | some guardPc, some observed =>
        probed.operate (.queueSidePath exit.key snapshot exit.feedback
          ⟨exit.key, guard, guardPc, observed, exit.feedback.epoch⟩)
      | _, _ => probed
    | _, _ => counted

def nativeExit (exit : NativeExit) (due : Bool) (plan : MaintenancePlan) :
    ProductionBackend :=
  let b := b.settleTrial exit
  let b := if exit.kind = .deopt then b.recordDeopt exit else b
  b.maintenanceIfDue due plan

def functionRetire (key : FunctionKey) (plan : MaintenancePlan) :
    ProductionBackend :=
  { b with
    tier2Sources := Function.update b.tier2Sources key none
    entryTiers := Function.update b.entryTiers key none }.operate (.retire key) |>.maintenance plan

/-- `runtime_detach`; the shutdown of the workers drains the overflow and then
the channel. -/
def runtimeDetach (overflow : List CompileCompletion)
    (drains : List (List CompileCompletion)) (plan : MaintenancePlan) : ProductionBackend :=
  let b := { b with entryCacheEpoch := 0, fastEntryEpoch := 0 }
  let b := b.complete overflow
  let b := drains.foldl (fun b drain => (b.operate (.pollReclamation 64)).complete drain) b
  (b.operate .shutDown).maintenance plan

end

end ProductionBackend

/-! ## Runs -/

/-- The callbacks of QuickJS, with the decisions behind them. -/
inductive Callback where
  | poll (plan : MaintenancePlan)
  | recordHot (key : FunctionKey) (count : Nat) (due : Bool) (plan : MaintenancePlan) (probing : Bool)
      (probes : List (FunctionKey × Tier)) (ready : Bool)
  | recordFeedback (key : FunctionKey) (wellFormed : Bool)
  | submitSnapshot (submission : Submission) (plan : MaintenancePlan)
  | acquireEntry (key : FunctionKey) (due : Bool) (plan : MaintenancePlan) (usable : Bool)
  | releaseEntry (pin : Address)
  | nativeEnter (key : FunctionKey)
  | entryFastGrant (key : FunctionKey)
  | nativeExit (exit : NativeExit) (due : Bool) (plan : MaintenancePlan)
  | functionRetire (key : FunctionKey) (plan : MaintenancePlan)
  | runtimeDetach (overflow : List CompileCompletion) (drains : List (List CompileCompletion))
      (plan : MaintenancePlan)

/-- A callback. A grant changes nothing that another callback of the model
reads. -/
def ProductionBackend.step [TypeSizes] (b : ProductionBackend) : Callback → ProductionBackend
  | .poll plan => b.maintenance plan
  | .recordHot key count due plan probing probes ready =>
    b.recordHot key count due plan probing probes ready
  | .recordFeedback key wellFormed => b.recordFeedback key wellFormed
  | .entryFastGrant _ => b
  | .submitSnapshot submission plan => b.submitSnapshot submission plan
  | .acquireEntry key due plan usable => (b.acquireEntry key due plan usable).1
  | .releaseEntry pin => b.operate (.dropPin pin)
  | .nativeEnter key => b.nativeEnter key
  | .nativeExit exit due plan => b.nativeExit exit due plan
  | .functionRetire key plan => b.functionRetire key plan
  | .runtimeDetach overflow drains plan => b.runtimeDetach overflow drains plan

end QuickJit
