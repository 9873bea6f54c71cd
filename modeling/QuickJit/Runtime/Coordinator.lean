import QuickJit.Ir.Node
import QuickJit.Runtime.CodeCache
import QuickJit.Runtime.Dependencies

/-
  The compile coordinator (`runtime/coordinator.rs`).

  The coordinator owns the compile queue, one record per function generation
  and tier, the requests in flight, the installed artifact keys, the dependency
  graph and the code cache. Every public operation is a function on its state
  that also returns what the operation returns. Maps that are only read and
  written by key are functions; `functions` is iterated and is an ordered map.

  What a request asks of feedback is a record of answers. Planning the call
  targets of a request looks up installed callees and, for frames to inline,
  mixes a hash into the artifact key; which callees and which hash depend on
  the bodies involved, so both are arguments (`CallTargets`). Metrics, the
  completion channel and the flag that lets a worker skip a retired request are
  left out: no decision of the coordinator reads them.

  Correspondence (Rust ↔ Lean):
    `functions.entry(key).or_default()`   ↔ `update`
    `functions.get_mut(&key)`             ↔ `functions.modify`
    the generation watermark of `queue_request`, `reject_tier1` and `retire`
                                          ↔ `advanceGeneration`
    `complete_in_flight`                  ↔ `complete`, `accept`, `publish`, `install`
    `CompletionDisposition`               ↔ `CompletionDisposition`, with the evicted keys
    `drain_completions_with_budget`       ↔ a reclamation poll and some `complete`s
-/

namespace QuickJit

/-- A function that passed verification. -/
structure VerifiedSnapshot extends VerifiedFunction where
  verified : ∃ table fuel limits, verify table fuel snapshot limits = .ok toVerifiedFunction

namespace VerifiedSnapshot

/-- What a successful verification returns. -/
def ofVerify {table : OpcodeTable} {fuel : Nat} {snapshot : CompileSnapshot} {limits : VerifyLimits}
    (h : (verify table fuel snapshot limits).isOk = true) : VerifiedSnapshot where
  toVerifiedFunction := Outcome.value h
  verified := by
    have hok := Outcome.eq_ok_value h
    obtain ⟨_, hverified⟩ := verify_eq_ok hok
    exact ⟨table, fuel, limits, by rw [hverified.snapshot_eq]; exact hok⟩

/-- Verification admits snapshots of this build only. -/
theorem compatible (f : VerifiedSnapshot) :
    f.snapshot.sourceRevision = sourceRevision ∧
      f.snapshot.opcodeFingerprint = opcodeFingerprint := by
  obtain ⟨table, fuel, limits, h⟩ := f.verified
  unfold verify at h
  obtain ⟨_, hcheck, -⟩ := Outcome.bind_eq_ok.mp h
  unfold checkSnapshot at hcheck
  split at hcheck
  · cases hcheck
  · rename_i hbuild
    exact ⟨by_contra fun hne => hbuild (.inl hne), by_contra fun hne => hbuild (.inr hne)⟩

end VerifiedSnapshot

inductive ObservedType where
  | int32 | float64 | bool | null | undefined | string | object
  | function (key : FunctionKey)
  | bigInt | symbol
  deriving DecidableEq, Repr

/-- What a request reads from feedback. -/
structure FeedbackSnapshot where
  epoch : Nat
  /-- The fingerprint of `bounded_specialization`. -/
  boundedSpecialization : FunctionKey → Option (BitVec 64)
  /-- The fingerprint of `call_specialization_at`. -/
  callSpecializationAt : FunctionKey → Nat → Option (BitVec 64)
  containsStableObservation : FunctionKey → Nat → ObservedType → Bool

def FeedbackSnapshot.empty (epoch : Nat) : FeedbackSnapshot where
  epoch := epoch
  boundedSpecialization _ := none
  callSpecializationAt _ _ := none
  containsStableObservation _ _ _ := false

structure SidePathProfile where
  function : FunctionKey
  guard : Nat
  pc : Nat
  observed : ObservedType
  feedbackEpoch : Nat
  deriving DecidableEq, Repr

namespace SidePathProfile

def fingerprint (profile : SidePathProfile) : BitVec 64 :=
  let observed : BitVec 64 := match profile.observed with
    | .int32 => 1
    | .float64 => 2
    | .bool => 3
    | .null => 4
    | .undefined => 5
    | .string => 6
    | .object => 7
    | .function key => 8 ^^^ BitVec.ofNat 64 key.id ^^^ (BitVec.ofNat 64 key.generation).rotateLeft 17
    | .bigInt => 9
    | .symbol => 10
  BitVec.ofNat 64 profile.function.id ^^^ (BitVec.ofNat 64 profile.function.generation).rotateLeft 7 ^^^
    (BitVec.ofNat 64 profile.guard).rotateLeft 13 ^^^ (BitVec.ofNat 64 profile.pc).rotateLeft 29 ^^^
    observed ^^^ (BitVec.ofNat 64 profile.feedbackEpoch).rotateLeft 41

def signatureFingerprint (profile : SidePathProfile) : BitVec 64 :=
  { profile with feedbackEpoch := 0 }.fingerprint

end SidePathProfile

structure ArtifactEnvironment where
  runtimeId : Nat
  targetIsa : Nat
  cpuFeatures : Nat
  abiFingerprint : Nat
  configFingerprint : Nat
  deriving DecidableEq, Repr

inductive CompileState where
  | cold
  | queued (tier : Tier)
  | compiling (tier : Tier)
  | ready (tier : Tier)
  | installed (tier : Tier)
  | backoff (attempts retryAfter : Nat)
  | blacklisted
  | retired
  deriving DecidableEq, Repr

/-- Whether a compilation is under way. -/
def CompileState.isActive : CompileState → Bool
  | .queued _ | .compiling _ | .ready _ => true
  | _ => false

inductive QueueError where
  | full
  | notReady
  | retired
  | blacklisted
  | shutdown
  | snapshotIdentity
  | attemptIdsExhausted
  deriving DecidableEq, Repr

structure CompileRequest where
  key : FunctionKey
  tier : Tier
  snapshot : VerifiedSnapshot
  artifactKey : ArtifactKey
  attemptId : Nat
  feedbackEpoch : Nat
  feedback : FeedbackSnapshot
  sidePathProfile : Option SidePathProfile

structure CompileCompletion where
  key : FunctionKey
  requestedTier : Tier
  artifactKey : ArtifactKey
  attemptId : Nat
  result : Except CompileFailure CompiledArtifact

inductive CompletionDisposition where
  | installed (evicted : List ArtifactKey)
  | missingInFlight
  | staleEnvelope
  | feedbackEpochMismatch (expected artifact : Nat) (latest : Option Nat)
  | dependencyGenerationMismatch (dependency : FunctionKey) (current : Option Nat)
  | dependencyInstallFailed
  | installFailed
  | artifactKeyMismatch
  | compileFailed (failure : CompileFailure)
  deriving DecidableEq, Repr

structure InFlight where
  attemptId : Nat
  artifactKey : ArtifactKey
  tier : Tier
  feedbackEpoch : Nat
  sidePath : Bool
  deriving DecidableEq, Repr

/-- What the coordinator keeps of a request it hands out. -/
def CompileRequest.flight (request : CompileRequest) : InFlight where
  attemptId := request.attemptId
  artifactKey := request.artifactKey
  tier := request.tier
  feedbackEpoch := request.feedbackEpoch
  sidePath := request.sidePathProfile.isSome

structure TierRecord where
  state : CompileState
  attempts : Nat
  deriving DecidableEq, Repr

structure FunctionState where
  baseline : TierRecord
  optimizing : TierRecord
  published : Option Tier
  retired : Bool
  instabilityAttempts : Nat
  deriving DecidableEq, Repr

namespace FunctionState

/-- `FunctionState::default`. -/
def new : FunctionState where
  baseline := ⟨.cold, 0⟩
  optimizing := ⟨.cold, 0⟩
  published := none
  retired := false
  instabilityAttempts := 0

def tier (f : FunctionState) : Tier → TierRecord
  | .baseline => f.baseline
  | .optimizing => f.optimizing

/-- The record of one tier, written. -/
def setTier (f : FunctionState) (tier : Tier) (record : TierRecord) : FunctionState :=
  match tier with
  | .baseline => { f with baseline := record }
  | .optimizing => { f with optimizing := record }

/-- The state of one tier, written. -/
def setState (f : FunctionState) (tier : Tier) (state : CompileState) : FunctionState :=
  f.setTier tier { f.tier tier with state }

/-- Whether `active_state` finds one. -/
def isActive (f : FunctionState) : Bool := f.baseline.state.isActive || f.optimizing.state.isActive

end FunctionState

inductive SideExitAction where
  | counted
  | stablePathThreshold
  | demote (retryAfter : Nat)
  deriving DecidableEq, Repr

/-- What planning the call targets of a request finds. -/
structure CallTargets where
  /-- The callees looked up, in order. -/
  lookups : List (FunctionKey × Tier)
  /-- The hash over the bodies to inline, if there are any. -/
  frameInline : Option (BitVec 64)

/-- A bounded signature, as far as call versions are concerned. -/
structure BoundedSpecializationSignature where
  function : FunctionKey
  feedbackEpoch : Nat
  fingerprint : BitVec 64

structure CallSpecializationKey where
  caller : FunctionKey
  callee : FunctionKey
  feedbackEpoch : Nat
  fingerprint : BitVec 64

inductive CompiledCallTargetError where
  | invalidSpecialization (e : QueueError)
  | staleCallee
  | calleeNotInstalled
  deriving DecidableEq, Repr

structure Coordinator where
  maxQueueLen : Nat
  maxAttempts : Nat
  clock : Nat
  queue : List CompileRequest
  functions : OrdMap FunctionKey FunctionState
  currentGenerations : Nat → Option Nat
  inFlight : FunctionKey → Option InFlight
  nextAttemptId : Nat
  shutdown : Bool
  cache : CodeCache
  installedKeys : FunctionKey → Tier → Option ArtifactKey
  lastBenefitTarget : Option (FunctionKey × Tier × ArtifactKey)
  environment : ArtifactEnvironment
  dependencies : DependencyGraph
  latestFeedbackEpochs : FunctionKey → Option Nat
  sideExits : FunctionKey → OrdMap Nat Nat
  sideExitObservations : FunctionKey → Nat → Option (Option ObservedType)
  specializationVersions : FunctionKey → BitVec 64 → Nat
  callSpecializationVersions : FunctionKey → OrdMap Nat Nat
  profitabilityDemotions : FunctionKey → Bool

/-- `u8::saturating_add(1)`. -/
def satSuccU8 (n : Nat) : Nat := min (n + 1) 255

namespace Coordinator

/-- `with_cache`. -/
def withCache (maxQueueLen maxAttempts : Nat) (cache : CodeCache)
    (environment : ArtifactEnvironment) : Coordinator where
  maxQueueLen := maxQueueLen
  maxAttempts := maxAttempts
  clock := 0
  queue := []
  functions := OrdMap.empty
  currentGenerations _ := none
  inFlight _ := none
  nextAttemptId := 0
  shutdown := false
  cache := cache
  installedKeys _ _ := none
  lastBenefitTarget := none
  environment := environment
  dependencies := DependencyGraph.empty
  latestFeedbackEpochs _ := none
  sideExits _ := OrdMap.empty
  sideExitObservations _ _ := none
  specializationVersions _ _ := 0
  callSpecializationVersions _ := OrdMap.empty
  profitabilityDemotions _ := false

variable (c : Coordinator)

/-! ## Records -/

/-- The record of a function, or a new one. -/
def record (key : FunctionKey) : FunctionState :=
  (c.functions.get? key).getD FunctionState.new

/-- Change the record of a function, made if there is none. -/
def update (key : FunctionKey) (f : FunctionState → FunctionState) : Coordinator :=
  { c with functions := c.functions.insert key (f (c.record key)) }

/-- Write one entry of the installed keys. -/
def setInstalled (key : FunctionKey) (tier : Tier) (artifact : Option ArtifactKey) :
    Coordinator :=
  { c with
    installedKeys := fun k t => if k = key ∧ t = tier then artifact else c.installedKeys k t }

def isCurrentGeneration (key : FunctionKey) : Bool :=
  c.currentGenerations key.id = some key.generation

def TierRecord.failed (maxAttempts clock : Nat) (record : TierRecord) : TierRecord :=
  let attempts := satSuccU8 record.attempts
  if maxAttempts ≤ attempts then ⟨.blacklisted, attempts⟩
  else ⟨.backoff attempts (satAdd clock attempts), attempts⟩

def recordFailure (key : FunctionKey) (tier : Tier) : Coordinator :=
  { c with functions := c.functions.modify key fun f =>
      f.setTier tier (TierRecord.failed c.maxAttempts c.clock (f.tier tier)) }

/-! ## Retirement -/

def retireState (key : FunctionKey) : Coordinator :=
  let c := { c with
    lastBenefitTarget := none
    queue := c.queue.filter fun request => request.key ≠ key
    inFlight := Function.update c.inFlight key none }
  let c := c.update key fun f => { f with retired := true, published := none }
  { c with
    installedKeys := fun k t => if k = key then none else c.installedKeys k t
    cache := c.cache.invalidateDeferred key }

def retireOlderGenerations (current : FunctionKey) : Coordinator :=
  (c.functions.keys.filter fun key =>
    key.id = current.id ∧ key.generation < current.generation).foldl retireState c

/-- Make a newer generation the current one. -/
def advanceGeneration (key : FunctionKey) : Coordinator :=
  if (c.currentGenerations key.id).all fun generation => generation < key.generation then
    let c := c.retireOlderGenerations key
    { c with currentGenerations := Function.update c.currentGenerations key.id (some key.generation) }
  else c

/-- Retire what a dependency key stands for, if it is a function. -/
def retireDependency : DependencyKey → Coordinator
  | .function function => c.retireState function
  | .shape _ | .prototype _ => c

def retire (key : FunctionKey) : Coordinator :=
  let c := c.advanceGeneration key
  let own := DependencyKey.function key
  let (dependencies, invalidated) := c.dependencies.invalidate own
  let invalidated := if own ∈ invalidated then invalidated else invalidated ++ [own]
  invalidated.foldl retireDependency { c with dependencies }

def shutDown : Coordinator :=
  if c.shutdown then c
  else
    let c := { c with shutdown := true, queue := [], inFlight := fun _ => none }
    let c := c.functions.keys.foldl retireState c
    { c with cache := c.cache.collectInvalidated.1 }

/-! ## Use of installed code -/

/-- `pin`; a pin on code of another feedback epoch is dropped again. -/
def pin (key : FunctionKey) (tier : Tier) : Coordinator × Option Address :=
  match c.installedKeys key tier with
  | none => (c, none)
  | some artifactKey =>
    match c.cache.pin artifactKey with
    | (cache, none) => ({ c with cache }, none)
    | (cache, some a) =>
      if tier = .optimizing ∧ ((cache.cells a).artifact.optimized).any (fun metadata =>
          c.latestFeedbackEpochs key ≠ some metadata.feedbackEpoch) then
        ({ c with cache := cache.dropPin a }, none)
      else ({ c with cache }, some a)

def dropPin (a : Address) : Coordinator := { c with cache := c.cache.dropPin a }

/-- A pin that is dropped after a look at the artifact. -/
def lookUp (target : FunctionKey × Tier) : Coordinator :=
  match c.pin target.1 target.2 with
  | (c, some a) => c.dropPin a
  | (c, none) => c

def recordBenefit (key : FunctionKey) (tier : Tier) (savedNs : Nat) :
    Coordinator × Bool :=
  let target : Option ArtifactKey := match c.lastBenefitTarget with
    | some (function, cachedTier, artifact) =>
      if function = key ∧ cachedTier = tier then some artifact else c.installedKeys key tier
    | none => c.installedKeys key tier
  match target with
  | none => (c, false)
  | some artifact =>
    let (cache, result) := c.cache.recordBenefit artifact savedNs
    ({ c with cache, lastBenefitTarget := some (key, tier, artifact) }, result.isOk)

def registerCallSpecialization (primary : BoundedSpecializationSignature)
    (call : CallSpecializationKey) : Coordinator × Except QueueError (BitVec 64) :=
  if primary.function ≠ call.caller ∨ primary.feedbackEpoch = 0 ∨
      primary.feedbackEpoch ≠ call.feedbackEpoch then (c, .error .snapshotIdentity)
  else
    let identity := versionFingerprint primary.fingerprint call.fingerprint
    let versions := c.callSpecializationVersions call.caller
    let store (n : Nat) : Coordinator := { c with
      callSpecializationVersions := Function.update c.callSpecializationVersions call.caller
        (versions.insert identity.toNat n) }
    match versions.get? identity.toNat with
    | some attempts =>
      if c.maxAttempts ≤ attempts then (c, .error .blacklisted)
      else (store (satSuccU8 attempts), .ok identity)
    | none =>
      if c.maxAttempts ≤ versions.entries.length then (c, .error .blacklisted)
      else (store 1, .ok identity)

/-- `resolve_compiled_call_target`; the pin of a refused version is dropped. -/
def resolveCompiledCallTarget (primary : BoundedSpecializationSignature)
    (call : CallSpecializationKey) :
    Coordinator × Except CompiledCallTargetError (BitVec 64 × Address) :=
  if primary.function ≠ call.caller ∨ primary.feedbackEpoch = 0 ∨
      primary.feedbackEpoch ≠ call.feedbackEpoch then
    (c, .error (.invalidSpecialization .snapshotIdentity))
  else if c.isCurrentGeneration call.callee = false ∨ (c.record call.callee).retired then
    (c, .error .staleCallee)
  else
    match c.pin call.callee .optimizing with
    | (c, none) => (c, .error .calleeNotInstalled)
    | (c, some a) =>
      match c.registerCallSpecialization primary call with
      | (c, .ok identity) => (c, .ok (identity, a))
      | (c, .error e) => (c.dropPin a, .error (.invalidSpecialization e))

/-! ## The queue -/

/-- Whether a tier in some state takes a request. -/
def checkState (clock : Nat) (sidePath : Bool) : CompileState → Except QueueError Unit
  | .cold => .ok ()
  | .installed .optimizing => if sidePath then .ok () else .error .notReady
  | .backoff _ retryAfter => if retryAfter ≤ clock then .ok () else .error .notReady
  | .blacklisted => .error .blacklisted
  | _ => .error .notReady

/-- The checks of `queue_request` before anything changes. -/
def checkRequest (key : FunctionKey) (tier : Tier) (snapshot : CompileSnapshot)
    (sidePath : Option SidePathProfile) : Except QueueError Unit := do
  let record := c.record key
  let installedBaseline := (c.installedKeys key .baseline).isSome
  let installedOptimizing := (c.installedKeys key .optimizing).isSome
  let interpreterDeoptTarget : Bool := record.baseline.state = .blacklisted
  if c.shutdown then .error .shutdown
  else if sidePath.any fun profile =>
      c.maxAttempts ≤ c.specializationVersions key profile.signatureFingerprint then
    .error .blacklisted
  else if (c.currentGenerations key.id).any fun generation => key.generation < generation then
    .error .retired
  else if record.retired then .error .retired
  else if record.isActive then .error .notReady
  else if tier = .baseline ∧ (installedBaseline || installedOptimizing) then .error .notReady
  else if tier = .optimizing ∧ ((!installedBaseline && !interpreterDeoptTarget) ||
      (installedOptimizing && sidePath.isNone)) then .error .notReady
  else
    checkState c.clock sidePath.isSome (record.tier tier).state
    if (snapshot.functionId ≠ 0 ∧ snapshot.functionId ≠ key.id) ∨
        (snapshot.generation ≠ 0 ∧ snapshot.generation ≠ key.generation) then
      .error .snapshotIdentity
    else .ok ()

/-- The fingerprint of the call specializations of a body. -/
def callFeedbackSignature (key : FunctionKey) (snapshot : VerifiedFunction)
    (feedback : FeedbackSnapshot) : Option (BitVec 64) :=
  match snapshot.instructions.filterMap fun i => feedback.callSpecializationAt key i.pc with
  | [] => none
  | first :: rest => some (rest.foldl (fun prior fingerprint => prior.rotateLeft 17 ^^^ fingerprint) first)

/-- The specialization a request is compiled for. -/
def specialization (key : FunctionKey) (tier : Tier) (snapshot : VerifiedFunction)
    (feedback : FeedbackSnapshot) (sidePath : Option SidePathProfile) : BitVec 64 :=
  match sidePath with
  | some profile => profile.fingerprint
  | none =>
    match tier with
    | .baseline => 0
    | .optimizing =>
      match feedback.boundedSpecialization key, callFeedbackSignature key snapshot feedback with
      | some primary, some call => versionFingerprint primary call
      | some primary, none => primary
      | none, some call => versionFingerprint 0 call
      | none, none => 0

def artifactKeyFor (environment : ArtifactEnvironment) (key : FunctionKey) (tier : Tier)
    (snapshot : CompileSnapshot) (specialization : BitVec 64) : ArtifactKey where
  runtimeId := environment.runtimeId
  functionId := key.id
  generation := key.generation
  tier := tier
  targetIsa := environment.targetIsa
  cpuFeatures := environment.cpuFeatures
  abiFingerprint := environment.abiFingerprint
  sourceRevision := snapshot.sourceRevision
  opcodeFingerprint := snapshot.opcodeFingerprint
  configFingerprint := environment.configFingerprint
  specializationFingerprint := specialization

/-- Look up the planned call targets; only primary requests plan any. -/
def planTargets (sidePath : Option SidePathProfile) (targets : CallTargets) :
    Coordinator :=
  if sidePath.isNone then targets.lookups.foldl lookUp c else c

/-- Mix the bodies to inline into the artifact key. -/
def inlineKey (tier : Tier) (sidePath : Option SidePathProfile) (targets : CallTargets)
    (artifactKey : ArtifactKey) : ArtifactKey :=
  match targets.frameInline with
  | some hash =>
    if tier = .optimizing ∧ sidePath.isNone then
      { artifactKey with
        specializationFingerprint := versionFingerprint artifactKey.specializationFingerprint hash }
    else artifactKey
  | none => artifactKey

/-- The feedback epoch a primary optimizing request leaves behind. -/
def noteEpoch (key : FunctionKey) (tier : Tier) (epoch : Nat)
    (sidePath : Option SidePathProfile) : Coordinator :=
  if tier = .optimizing ∧ sidePath.isNone then
    let latest := match c.latestFeedbackEpochs key with
      | some latest => max latest epoch
      | none => epoch
    { c with latestFeedbackEpochs := Function.update c.latestFeedbackEpochs key (some latest) }
  else c

/-- Put an accepted request at the end of the queue. -/
def enqueue (request : CompileRequest) : Coordinator :=
  let c := { c with
    queue := c.queue ++ [request]
    specializationVersions := match request.sidePathProfile with
      | some profile => fun k signature =>
        if k = request.key ∧ signature = profile.signatureFingerprint then
          satSuccU8 (c.specializationVersions k signature)
        else c.specializationVersions k signature
      | none => c.specializationVersions }
  c.update request.key fun f => f.setState request.tier (.queued request.tier)

def queueRequest (key : FunctionKey) (tier : Tier) (snapshot : VerifiedSnapshot)
    (feedback : FeedbackSnapshot) (sidePath : Option SidePathProfile) (targets : CallTargets) :
    Coordinator × Except QueueError Unit :=
  match c.checkRequest key tier snapshot.snapshot sidePath with
  | .error e => (c, .error e)
  | .ok () =>
    let artifactKey := artifactKeyFor c.environment key tier snapshot.snapshot
      (specialization key tier snapshot.toVerifiedFunction feedback sidePath)
    let c := c.advanceGeneration key
    if c.maxQueueLen ≤ c.queue.length then (c, .error .full)
    else
      match checkedAdd c.nextAttemptId 1 with
      | none => (c, .error .attemptIdsExhausted)
      | some attemptId =>
        let c := { c with nextAttemptId := attemptId }.noteEpoch key tier feedback.epoch sidePath
        let c := c.planTargets sidePath targets
        let artifactKey := inlineKey tier sidePath targets artifactKey
        (c.enqueue {
          key, tier, snapshot, artifactKey, attemptId, feedback, feedbackEpoch := feedback.epoch
          sidePathProfile := sidePath }, .ok ())

/-- `queue_with_feedback`. -/
def queueWithFeedback (key : FunctionKey) (tier : Tier)
    (snapshot : VerifiedSnapshot) (feedback : FeedbackSnapshot) (targets : CallTargets) :
    Coordinator × Except QueueError Unit :=
  c.queueRequest key tier snapshot feedback none targets

/-- The checks `queue_side_path` adds. -/
def sidePathAllowed (key : FunctionKey) (feedback : FeedbackSnapshot)
    (profile : SidePathProfile) : Bool :=
  profile.function = key && profile.feedbackEpoch ≠ 0 && profile.feedbackEpoch = feedback.epoch &&
    feedback.containsStableObservation key profile.pc profile.observed &&
    (profile.observed = .int32 || profile.observed = .float64) &&
    (c.installedKeys key .baseline).isSome && (c.installedKeys key .optimizing).isSome

def queueSidePath (key : FunctionKey) (snapshot : VerifiedSnapshot)
    (feedback : FeedbackSnapshot) (profile : SidePathProfile) :
    Coordinator × Except QueueError Unit :=
  if c.sidePathAllowed key feedback profile then
    c.queueRequest key .optimizing snapshot feedback (some profile) ⟨[], none⟩
  else (c, .error .snapshotIdentity)

/-- Whether a request is for some function and tier. -/
def isRequestFor (key : FunctionKey) (tier : Tier) (request : CompileRequest) : Bool :=
  request.key = key && request.tier = tier

def prioritize (key : FunctionKey) (tier : Tier) : Coordinator × Bool :=
  match c.queue.find? (isRequestFor key tier) with
  | some request => ({ c with queue := request :: c.queue.eraseP (isRequestFor key tier) }, true)
  | none => (c, false)

/-- Whether a queued request is still wanted. -/
def isWanted (request : CompileRequest) : Bool :=
  (c.functions.get? request.key).any fun f => (f.tier request.tier).state = .queued request.tier

/-- What `begin_next` hands out: it drops the unwanted requests before it. -/
def beginNext : Coordinator × Option CompileRequest :=
  match c.queue.dropWhile fun request => !c.isWanted request with
  | [] => ({ c with queue := [] }, none)
  | request :: queue =>
    ({ c with
      queue
      functions := c.functions.modify request.key fun f =>
        f.setState request.tier (.compiling request.tier)
      inFlight := Function.update c.inFlight request.key (some request.flight) }, some request)

def rollback (request : CompileRequest) : Coordinator :=
  if (c.inFlight request.key).any fun flight =>
      flight.attemptId = request.attemptId && flight.tier = request.tier then
    { c with
      inFlight := Function.update c.inFlight request.key none
      functions := c.functions.modify request.key fun f =>
        f.setState request.tier (.queued request.tier)
      queue := request :: c.queue }
  else c

/-! ## Completions -/

def recordEviction (evicted : ArtifactKey) : Coordinator :=
  let key := evicted.function
  let c := { c with lastBenefitTarget := none }.setInstalled key evicted.tier none
  { c with functions := c.functions.modify key fun f =>
      if f.published = some evicted.tier then
        { f with published :=
            if evicted.tier = .optimizing ∧ (c.installedKeys key .baseline).isSome then some .baseline
            else none }
      else f }

/-- What an installation changes apart from cache, evictions and graph. -/
def install (key : FunctionKey) (tier : Tier) (flight : InFlight)
    (artifactKey : ArtifactKey) : Coordinator :=
  let c := { c with lastBenefitTarget := none }.setInstalled key tier (some artifactKey)
  { c with
    sideExits := if tier = .optimizing then
        Function.update c.sideExits key ((c.sideExits key).mapValues fun _ => 0)
      else c.sideExits
    latestFeedbackEpochs := if flight.sidePath then
        Function.update c.latestFeedbackEpochs key (some flight.feedbackEpoch)
      else c.latestFeedbackEpochs
    functions := c.functions.modify key fun f =>
      { f.setTier tier ⟨.cold, 0⟩ with published := some tier } }

/-- `install::publish` and what follows it. -/
def publish [TypeSizes] (key : FunctionKey) (tier : Tier) (flight : InFlight)
    (artifact : CompiledArtifact) (staged : DependencyGraph) : Coordinator × CompletionDisposition :=
  if artifact.publishes then
    match c.cache.insert artifact with
    | (cache, .ok evicted) =>
      let c := { c with cache, dependencies := staged }
      ((evicted.foldl recordEviction c).install key tier flight artifact.key, .installed evicted)
    | (cache, .error _) => ({ c with cache }.recordFailure key tier, .installFailed)
  else (c.recordFailure key tier, .installFailed)

/-- A completion with an artifact of the expected key. The second generation
check repeats the first one on unchanged data and is not repeated here. -/
def accept [TypeSizes] (key : FunctionKey) (tier : Tier) (flight : InFlight)
    (artifact : CompiledArtifact) : Coordinator × CompletionDisposition :=
  let latest := c.latestFeedbackEpochs key
  let landed := { c with inFlight := Function.update c.inFlight key none }
  match artifact.optimized.filter fun metadata => tier = .optimizing &&
      (metadata.feedbackEpoch ≠ flight.feedbackEpoch ||
        (!flight.sidePath && latest ≠ some flight.feedbackEpoch)) with
  | some metadata =>
    (landed.recordFailure key tier,
      .feedbackEpochMismatch flight.feedbackEpoch metadata.feedbackEpoch latest)
  | none =>
    let c := { landed with functions := landed.functions.modify key fun f => f.setState tier (.ready tier) }
    match artifact.dependencies.find? fun d => !c.isCurrentGeneration d with
    | some d => (c.recordFailure key tier, .dependencyGenerationMismatch d (c.currentGenerations d.id))
    | none =>
      match c.dependencies.install (.function key) key.generation
          (artifact.dependencies.map .function) with
      | .error _ => (c.recordFailure key tier, .dependencyInstallFailed)
      | .ok staged => c.publish key tier flight artifact staged

/-- Whether a completion is for the request in flight. -/
def isExpected (completion : CompileCompletion) (flight : InFlight) : Bool :=
  c.isCurrentGeneration completion.key &&
    (c.functions.get? completion.key).any (fun f =>
      (f.tier completion.requestedTier).state = .compiling completion.requestedTier) &&
    flight.attemptId = completion.attemptId && flight.tier = completion.requestedTier &&
    flight.artifactKey = completion.artifactKey

def complete [TypeSizes] (completion : CompileCompletion) :
    Coordinator × CompletionDisposition :=
  match c.inFlight completion.key with
  | none => (c, .missingInFlight)
  | some flight =>
    if c.isExpected completion flight then
      match completion.result with
      | .ok artifact =>
        if completion.artifactKey = artifact.key then
          c.accept completion.key completion.requestedTier flight artifact
        else (c, .artifactKeyMismatch)
      | .error failure =>
        ({ c with inFlight := Function.update c.inFlight completion.key none }.recordFailure
          completion.key completion.requestedTier, .compileFailed failure)
    else (c, .staleEnvelope)

def rejectTier1 (key : FunctionKey) (tier : Tier) : Coordinator :=
  let c := (c.advanceGeneration key).update key id
  let c := c.recordFailure key tier
  { c with functions := c.functions.modify key fun f => f.setState tier .blacklisted }

/-! ## Demotion -/

def demoteBaselineToInterpreter (key : FunctionKey) : Coordinator × Bool :=
  let c := { c with lastBenefitTarget := none }
  if c.functions.contains key ∧ (c.installedKeys key .baseline).isSome then
    let c := c.setInstalled key .baseline none
    ({ c with
      profitabilityDemotions := Function.update c.profitabilityDemotions key true
      functions := c.functions.modify key fun f =>
        let f := f.setState .baseline .blacklisted
        if f.published = some .baseline then { f with published := none } else f }, true)
  else (c, false)

def prepareBaselineDirectRefresh (key : FunctionKey) : Coordinator × Bool :=
  let c := { c with lastBenefitTarget := none }
  if (c.functions.get? key).any (fun f => f.published = some .baseline) ∧
      (c.installedKeys key .baseline).isSome then
    let c := c.setInstalled key .baseline none
    ({ c with functions := c.functions.modify key fun f =>
        { f.setState .baseline .cold with published := none } }, true)
  else (c, false)

/-- Whether a demotion of the optimizing tier finds both tiers installed. -/
def bothInstalled (key : FunctionKey) : Bool :=
  (c.installedKeys key .baseline).isSome && (c.installedKeys key .optimizing).isSome

/-- When a demoted optimizing tier may be tried again. -/
def retryAfter (clock attempts : Nat) : Nat := satAdd clock (2 ^ min attempts 20)

def demoteUnprofitableOptimized (key : FunctionKey) : Coordinator × Bool :=
  let c := { c with lastBenefitTarget := none }
  if c.bothInstalled key then
    ((c.setInstalled key .optimizing none).update key fun f =>
      let attempts := satSuccU8 f.instabilityAttempts
      { f.setState .optimizing (.backoff attempts (retryAfter c.clock attempts)) with
        instabilityAttempts := attempts, published := some .baseline }, true)
  else (c, false)

def prepareStablePathRecompile (key : FunctionKey) : Coordinator × Bool :=
  let c := { c with lastBenefitTarget := none }
  if c.bothInstalled key then
    let c := c.setInstalled key .optimizing none
    ({ c with functions := c.functions.modify key fun f =>
        { f.setState .optimizing .cold with published := some .baseline } }, true)
  else (c, false)

/-- Whether an optimizing request is queued or compiling. -/
def sidePathPending (key : FunctionKey) : Bool :=
  match (c.record key).optimizing.state with
  | .queued _ | .compiling _ => true
  | _ => false

/-- The exits of a function with one more at `guard`. -/
def countExit (key : FunctionKey) (guard : Nat) : OrdMap Nat Nat :=
  (c.sideExits key).insert guard (satSuccU8 (((c.sideExits key).get? guard).getD 0))

/-- Whether an exit shows an unstable guard: another guard failed before, or
this one with another type. -/
def isUnstable (key : FunctionKey) (guard : Nat) (observed : Option ObservedType) :
    Bool :=
  1 < (c.countExit key guard).entries.length ||
    (c.sideExitObservations key guard).any fun prior => prior ≠ observed

/-- Whether an exit demotes the optimizing tier. -/
def exitDemotes (key : FunctionKey) (guard : Nat) (observed : Option ObservedType) :
    Bool :=
  c.isUnstable key guard observed ||
    (20 ≤ ((c.countExit key guard).get? guard).getD 0 && !c.sidePathPending key)

/-- Count an exit and keep the first observation. -/
def noteExit (key : FunctionKey) (guard : Nat) (observed : Option ObservedType) :
    Coordinator :=
  { c with
    sideExits := Function.update c.sideExits key (c.countExit key guard)
    sideExitObservations := fun k g =>
      if k = key ∧ g = guard then some ((c.sideExitObservations k g).getD observed)
      else c.sideExitObservations k g }

/-- Unpublish the optimizing tier of a function with unstable guards. -/
def demoteUnstable (key : FunctionKey) : Coordinator :=
  let c := { c with lastBenefitTarget := none }.setInstalled key .optimizing none
  c.update key fun f =>
    let attempts := satSuccU8 f.instabilityAttempts
    { f.setState .optimizing (if c.maxAttempts ≤ attempts then .blacklisted
        else .backoff attempts (retryAfter c.clock attempts)) with
      instabilityAttempts := attempts
      published := if (c.installedKeys key .baseline).isSome then some .baseline else none }

def recordOptimizedSideExitProfile (key : FunctionKey) (guard : Nat)
    (observed : Option ObservedType) : Coordinator × SideExitAction :=
  let noted := c.noteExit key guard observed
  if c.exitDemotes key guard observed then
    (noted.demoteUnstable key,
      .demote (retryAfter c.clock (satSuccU8 (c.record key).instabilityAttempts)))
  else if ((c.countExit key guard).get? guard).getD 0 = 10 then (noted, .stablePathThreshold)
  else (noted, .counted)

/-! ## Queries -/

def tierState (key : FunctionKey) (tier : Tier) : CompileState :=
  match c.functions.get? key with
  | none => .cold
  | some f =>
    if f.retired then .retired
    else if (f.tier tier).state ≠ .cold then (f.tier tier).state
    else if f.published = some tier ∨ (c.installedKeys key tier).isSome then .installed tier
    else .cold

def isTerminallyBlacklisted (key : FunctionKey) : Bool :=
  match c.functions.get? key with
  | none => false
  | some f =>
    !f.retired && (f.optimizing.state = .blacklisted ||
      (f.baseline.state = .blacklisted && !c.profitabilityDemotions key))

def advanceClock (now : Nat) : Coordinator := { c with clock := max c.clock now }

/-- `poll_cache_reclamation`, or the poll of a completion drain. -/
def pollReclamation (budget : Nat) : Coordinator × CodeCache.ReclamationPoll :=
  let (cache, poll) := c.cache.pollReclamationWithBudget budget
  ({ c with cache }, poll)

end Coordinator

end QuickJit
