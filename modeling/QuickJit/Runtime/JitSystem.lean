import QuickJit.Lib.Transition
import QuickJit.Runtime.Lifecycle

/-
  The coordinator with the parties around it.

  A `JitSystem` is a coordinator, the execution pins its callers hold and the
  requests it has handed out; only those can be rolled back. `accepted` records
  the last accepted request of each function and tier; nothing reads it. A run
  applies the coordinator's operations in any order, completions with any
  contents included.

  `life` is the system as one function sees it, the state of `Lifecycle`.
-/

namespace QuickJit

/-- The operations of a coordinator and the drop of a pin. -/
inductive CoordinatorOp where
  | queue (key : FunctionKey) (tier : Tier) (snapshot : VerifiedSnapshot)
      (feedback : FeedbackSnapshot) (targets : CallTargets)
  | queueSidePath (key : FunctionKey) (snapshot : VerifiedSnapshot) (feedback : FeedbackSnapshot)
      (profile : SidePathProfile)
  | prioritize (key : FunctionKey) (tier : Tier)
  | beginNext
  | rollback (index : Nat)
  | complete (completion : CompileCompletion)
  | rejectTier1 (key : FunctionKey) (tier : Tier)
  | retire (key : FunctionKey)
  | demoteBaselineToInterpreter (key : FunctionKey)
  | prepareBaselineDirectRefresh (key : FunctionKey)
  | demoteUnprofitableOptimized (key : FunctionKey)
  | prepareStablePathRecompile (key : FunctionKey)
  | recordOptimizedSideExitProfile (key : FunctionKey) (guard : Nat) (observed : Option ObservedType)
  | recordBenefit (key : FunctionKey) (tier : Tier) (savedNs : Nat)
  | registerCallSpecialization (primary : BoundedSpecializationSignature) (call : CallSpecializationKey)
  | resolveCompiledCallTarget (primary : BoundedSpecializationSignature) (call : CallSpecializationKey)
  | pin (key : FunctionKey) (tier : Tier)
  | dropPin (pin : Address)
  | pollReclamation (budget : Nat)
  | advanceClock (now : Nat)
  | shutDown

structure JitSystem where
  coordinator : Coordinator
  pins : List Address
  dispatched : List CompileRequest
  accepted : FunctionKey → Tier → Option CompileRequest

def targetPins : Except CompiledCallTargetError (BitVec 64 × Address) → List Address
  | .ok (_, a) => [a]
  | .error _ => []

namespace JitSystem

/-- A system around a new coordinator. -/
def start (maxQueueLen maxAttempts : Nat) (limits : CacheLimits) (environment : ArtifactEnvironment) :
    JitSystem where
  coordinator := Coordinator.withCache maxQueueLen maxAttempts limits.cache environment
  pins := []
  dispatched := []
  accepted _ _ := none

/-- Take over the result of a queue operation. -/
def queued (s : JitSystem) (key : FunctionKey) (tier : Tier)
    (result : Coordinator × Except QueueError Unit) : JitSystem :=
  { s with
    coordinator := result.1
    accepted := match result.2 with
      | .ok () => fun k t => if k = key ∧ t = tier then result.1.queue.getLast? else s.accepted k t
      | .error _ => s.accepted }

def step [TypeSizes] (s : JitSystem) : CoordinatorOp → JitSystem
  | .queue key tier snapshot feedback targets =>
    s.queued key tier (s.coordinator.queueWithFeedback key tier snapshot feedback targets)
  | .queueSidePath key snapshot feedback profile =>
    s.queued key .optimizing (s.coordinator.queueSidePath key snapshot feedback profile)
  | .prioritize key tier => { s with coordinator := (s.coordinator.prioritize key tier).1 }
  | .beginNext =>
    { s with
      coordinator := s.coordinator.beginNext.1
      dispatched := s.coordinator.beginNext.2.toList ++ s.dispatched }
  | .rollback index =>
    match s.dispatched[index]? with
    | some request => { s with coordinator := s.coordinator.rollback request }
    | none => s
  | .complete completion => { s with coordinator := (s.coordinator.complete completion).1 }
  | .rejectTier1 key tier => { s with coordinator := s.coordinator.rejectTier1 key tier }
  | .retire key => { s with coordinator := s.coordinator.retire key }
  | .demoteBaselineToInterpreter key =>
    { s with coordinator := (s.coordinator.demoteBaselineToInterpreter key).1 }
  | .prepareBaselineDirectRefresh key =>
    { s with coordinator := (s.coordinator.prepareBaselineDirectRefresh key).1 }
  | .demoteUnprofitableOptimized key =>
    { s with coordinator := (s.coordinator.demoteUnprofitableOptimized key).1 }
  | .prepareStablePathRecompile key =>
    { s with coordinator := (s.coordinator.prepareStablePathRecompile key).1 }
  | .recordOptimizedSideExitProfile key guard observed =>
    { s with coordinator := (s.coordinator.recordOptimizedSideExitProfile key guard observed).1 }
  | .recordBenefit key tier savedNs =>
    { s with coordinator := (s.coordinator.recordBenefit key tier savedNs).1 }
  | .registerCallSpecialization primary call =>
    { s with coordinator := (s.coordinator.registerCallSpecialization primary call).1 }
  | .resolveCompiledCallTarget primary call =>
    { s with
      coordinator := (s.coordinator.resolveCompiledCallTarget primary call).1
      pins := targetPins (s.coordinator.resolveCompiledCallTarget primary call).2 ++ s.pins }
  | .pin key tier =>
    { s with
      coordinator := (s.coordinator.pin key tier).1
      pins := (s.coordinator.pin key tier).2.toList ++ s.pins }
  | .dropPin pin =>
    if pin ∈ s.pins then
      { s with coordinator := s.coordinator.dropPin pin, pins := s.pins.erase pin }
    else s
  | .pollReclamation budget => { s with coordinator := (s.coordinator.pollReclamation budget).1 }
  | .advanceClock now => { s with coordinator := s.coordinator.advanceClock now }
  | .shutDown => { s with coordinator := s.coordinator.shutDown }

end JitSystem

/-! ## The view of one function -/

def Coordinator.life (c : Coordinator) (accepted : Tier → Option CompileRequest) (k : FunctionKey) :
    Life where
  known := c.functions.contains k
  state t := ((c.record k).tier t).state
  published := (c.record k).published
  retired := (c.record k).retired
  watermark := c.currentGenerations k.id
  shutdown := c.shutdown
  requests := c.queue.filter fun r => r.key = k
  flight := c.inFlight k
  installed := c.installedKeys k
  epoch := c.latestFeedbackEpochs k
  artifacts key := if key.function = k then c.cache.lookup key else none
  accepted := accepted

def JitSystem.life (s : JitSystem) (k : FunctionKey) : Life := s.coordinator.life (s.accepted k) k

/-- The key a function's baseline is compiled under. -/
def Coordinator.baseKey (c : Coordinator) (k : FunctionKey) : ArtifactKey where
  runtimeId := c.environment.runtimeId
  functionId := k.id
  generation := k.generation
  tier := .baseline
  targetIsa := c.environment.targetIsa
  cpuFeatures := c.environment.cpuFeatures
  abiFingerprint := c.environment.abiFingerprint
  sourceRevision := sourceRevision
  opcodeFingerprint := opcodeFingerprint
  configFingerprint := c.environment.configFingerprint
  specializationFingerprint := 0

end QuickJit
