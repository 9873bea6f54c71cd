import Mathlib
import QuickJit.Lib.OrdMap
import QuickJit.Lib.Outcome
import QuickJit.Runtime.Artifact

/-
  The code cache (`code_cache/mod.rs`, `code_cache/evict.rs`).

  Artifacts are shared by counted references, and the cache's counters move in
  the destructors of those references, so the allocations are part of the
  model: `cells` holds every `CachedArtifact` under its address, with the
  strong count of its `Arc`, and the map, the benefit cache, execution pins and
  deopt pins hold addresses. Dropping the last `Arc` of an optimizing artifact
  drops its deopt pin (`dropArc`); a baseline owns no pin, so the release of
  the pin's own `Arc` goes no further.

  Counters that only count live pins are incremented without wrapping, since
  each pin occupies memory; a decrement below zero wraps as `fetch_sub` does.
  `removals` records, for each artifact taken out of the map, the two counters
  as they were then; nothing reads it.

  Correspondence (Rust ↔ Lean):
    `Arc<CachedArtifact>`                    ↔ `Address`
    `DeoptPin::new`, its `Drop`              ↔ `takeDeoptPin`, `dropDeoptPin`
    `ExecutionPin`, its `Drop`               ↔ the address `pin` returns, `dropPin`
    `evict::plan`                            ↔ `planStep`, `plan`
    `CodeCache::insert`                      ↔ `admission`, `deoptBaseline`, `reserve`,
                                               `commit`, `insert`
    `collect_invalidated_with_budget`        ↔ `collectLoop`
-/

namespace QuickJit

/-- Where an `Arc<CachedArtifact>` is allocated. -/
abbrev Address := Nat

structure CachedArtifact where
  artifact : CompiledArtifact
  executionPins : Nat
  deoptReferences : Nat
  lastUsed : Nat
  invalidated : Bool
  /-- The target of the deopt pin it owns. -/
  deoptTarget : Option Address
  chargeBytes : Nat
  codeBytes : Nat
  metadataBytes : Nat
  /-- The strong count of its `Arc`. -/
  strong : Nat
  deriving DecidableEq, Repr

/-- What an unused address holds. -/
instance : Inhabited CachedArtifact where
  default := {
    artifact := {
      key := ⟨0, 0, 0, .baseline, 0, 0, 0, 0, 0, 0, 0⟩, code := 0, relocations := []
      unwindMetadata := none, stackMaps := [], frameStates := [], dependencies := []
      benefit := 0, optimized := none, inlineSnapshot := none, publishes := true }
    executionPins := 0, deoptReferences := 0, lastUsed := 0, invalidated := false
    deoptTarget := none, chargeBytes := 0, codeBytes := 0, metadataBytes := 0, strong := 0 }

/-- `AtomicUsize::fetch_sub(1)`. -/
def fetchSub (n : Nat) : Nat := if n = 0 then usizeMax else n - 1

@[simp] theorem fetchSub_succ (n : Nat) : fetchSub (n + 1) = n := by simp [fetchSub]

theorem fetchSub_pos {n : Nat} (h : n ≠ 0) : fetchSub n = n - 1 := if_neg h

/-- The order in which a tier's artifacts are given up. -/
def Tier.reclaimOrder : Tier → Nat
  | .optimizing => 0
  | .baseline => 1

namespace CachedArtifact

def isEvictable (x : CachedArtifact) : Bool := x.executionPins = 0 && x.deoptReferences = 0

/-- The charges are those of the artifact. -/
structure Priced [TypeSizes] (x : CachedArtifact) : Prop where
  chargeBytes : x.artifact.chargeBytes = some x.chargeBytes
  codeBytes : x.codeBytes = x.artifact.codeBytes
  metadataBytes : x.artifact.metadataBytes = some x.metadataBytes

/-- `eviction_plan_order`, as the list the tuples compare by. -/
def evictionPlanOrder (x : CachedArtifact) : List Nat :=
  let key := x.artifact.key
  if x.invalidated then 0 :: key.tier.reclaimOrder :: 0 :: key.fields
  else
    1 :: min (x.artifact.benefit * 1000000) (2 ^ 128 - 1) / max x.chargeBytes 1 :: x.lastUsed ::
      key.fields

end CachedArtifact

inductive CacheError where
  | capacityZero
  | allArtifactsPinned
  | artifactPinned
  | missingArtifact
  | missingDeoptTarget
  | artifactTooLarge
  | chargeOverflow
  | publishFailed
  deriving DecidableEq, Repr

/-- An artifact leaving the map, with its counters at that moment. -/
structure Removal where
  address : Address
  executionPins : Nat
  deoptReferences : Nat
  deriving DecidableEq, Repr

structure CodeCache where
  maxBytes : Nat
  maxCodeBytes : Nat
  maxMetadataBytes : Nat
  separateLimits : Bool
  chargedBytes : Nat
  chargedCodeBytes : Nat
  chargedMetadataBytes : Nat
  clock : Nat
  artifacts : OrdMap ArtifactKey Address
  lastBenefitTarget : Option Address
  reclaimNeeded : Bool
  cells : Address → CachedArtifact
  /-- The next free address. -/
  next : Address
  removals : List Removal

namespace CodeCache

/-- `CodeCache::new`. -/
def new (maxBytes : Nat) : CodeCache where
  maxBytes := maxBytes
  maxCodeBytes := maxBytes
  maxMetadataBytes := maxBytes
  separateLimits := false
  chargedBytes := 0
  chargedCodeBytes := 0
  chargedMetadataBytes := 0
  clock := 0
  artifacts := OrdMap.empty
  lastBenefitTarget := none
  reclaimNeeded := false
  cells := fun _ => default
  next := 0
  removals := []

def newWithSeparateLimits (maxCodeBytes maxMetadataBytes : Nat) : CodeCache :=
  { new (satAdd maxCodeBytes maxMetadataBytes) with
    maxCodeBytes, maxMetadataBytes, separateLimits := true }

variable (c : CodeCache)

/-- `next_tick`; the tick is the new clock. -/
def nextTick : CodeCache := { c with clock := satAdd c.clock 1 }

/-- Write one cell. -/
def modify (a : Address) (f : CachedArtifact → CachedArtifact) : CodeCache :=
  { c with cells := Function.update c.cells a (f (c.cells a)) }

/-! ## References -/

/-- Drop one `Arc`, whatever that destroys. -/
def release (a : Address) : CodeCache :=
  c.modify a fun x => { x with strong := fetchSub x.strong }

/-- Ask for reclamation when the last pin of an invalidated artifact goes. -/
def signal (previous : Nat) (a : Address) : CodeCache :=
  if previous = 1 ∧ (c.cells a).invalidated then { c with reclaimNeeded := true } else c

def takeDeoptPin (a : Address) : CodeCache :=
  c.modify a fun x => { x with strong := x.strong + 1, deoptReferences := x.deoptReferences + 1 }

def dropDeoptPin (a : Address) : CodeCache :=
  let previous := (c.cells a).deoptReferences
  let c := c.modify a fun x => { x with deoptReferences := fetchSub x.deoptReferences }
  (c.signal previous a).release a

/-- Drop one `Arc`; the last one destroys the artifact and the pin it owns. -/
def dropArc (a : Address) : CodeCache :=
  let c := c.release a
  if (c.cells a).strong = 0 then
    match (c.cells a).deoptTarget with
    | some target => c.dropDeoptPin target
    | none => c
  else c

/-- Drop an `ExecutionPin`. -/
def dropPin (a : Address) : CodeCache :=
  let previous := (c.cells a).executionPins
  let c := c.modify a fun x => { x with executionPins := fetchSub x.executionPins }
  (c.signal previous a).dropArc a

/-- Forget the benefit target when it is this artifact. -/
def clearBenefitTarget (key : ArtifactKey) : CodeCache :=
  match c.lastBenefitTarget with
  | some a =>
    if (c.cells a).artifact.key = key then { c with lastBenefitTarget := none }.dropArc a else c
  | none => c

/-- Take an entry out of the map and its charge off the counters. -/
def unlink (key : ArtifactKey) (a : Address) : CodeCache :=
  let x := c.cells a
  { c with
    artifacts := c.artifacts.erase key
    chargedBytes := c.chargedBytes - x.chargeBytes
    chargedCodeBytes := c.chargedCodeBytes - x.codeBytes
    chargedMetadataBytes := c.chargedMetadataBytes - x.metadataBytes
    removals := ⟨a, x.executionPins, x.deoptReferences⟩ :: c.removals }

/-- `remove`; the callers drop what it returns. -/
def remove (key : ArtifactKey) : CodeCache :=
  let c := c.clearBenefitTarget key
  match c.artifacts.get? key with
  | some a => (c.unlink key a).dropArc a
  | none => c

/-! ## Eviction -/

/-- What `plan` has selected so far, and its copy of the reference counts. -/
structure EvictionPlan where
  selected : List ArtifactKey
  deoptReferences : ArtifactKey → Option Nat
  freedBytes : Nat
  freedCodeBytes : Nat
  freedMetadataBytes : Nat

def releaseDeoptReference (references : ArtifactKey → Option Nat) :
    Option ArtifactKey → ArtifactKey → Option Nat
  | some target =>
    match references target with
    | some n => Function.update references target (some (n - 1))
    | none => references
  | none => references

def deoptTargetKey (a : Address) : Option ArtifactKey :=
  (c.cells a).deoptTarget.map fun target => (c.cells target).artifact.key

/-- The plan before the first selection; replacing `excluded` releases its
target. -/
def initialPlan (excluded : ArtifactKey) : EvictionPlan where
  selected := []
  deoptReferences :=
    releaseDeoptReference
      (fun key => (c.artifacts.get? key).map fun a => (c.cells a).deoptReferences)
      ((c.artifacts.get? excluded).bind c.deoptTargetKey)
  freedBytes := 0
  freedCodeBytes := 0
  freedMetadataBytes := 0

/-- Whether an entry may be selected next. -/
def eligible (excluded : ArtifactKey) (p : EvictionPlan)
    (entry : ArtifactKey × Address) : Bool :=
  entry.1 ≠ excluded && entry.1 ∉ p.selected && (c.cells entry.2).executionPins = 0 &&
    (p.deoptReferences entry.1).getD 0 = 0

def candidate (excluded : ArtifactKey) (p : EvictionPlan) :
    Option (ArtifactKey × Address) :=
  (c.artifacts.entries.filter (c.eligible excluded p)).argmin
    fun entry => (c.cells entry.2).evictionPlanOrder

/-- One turn of `plan`'s loop. -/
def planStep (excluded : ArtifactKey) (bytes codeBytes metadataBytes : Nat)
    (p : EvictionPlan) : Outcome CacheError (Option EvictionPlan) :=
  if bytes ≤ p.freedBytes ∧ codeBytes ≤ p.freedCodeBytes ∧ metadataBytes ≤ p.freedMetadataBytes then
    .ok none
  else
    match c.candidate excluded p with
    | none => Outcome.fail .allArtifactsPinned
    | some (key, a) => do
      let x := c.cells a
      let freedBytes ← Outcome.okOr .chargeOverflow (checkedAdd p.freedBytes x.chargeBytes)
      let freedCodeBytes ← Outcome.okOr .chargeOverflow (checkedAdd p.freedCodeBytes x.codeBytes)
      let freedMetadataBytes ←
        Outcome.okOr .chargeOverflow (checkedAdd p.freedMetadataBytes x.metadataBytes)
      .ok (some {
        selected := p.selected ++ [key]
        deoptReferences := releaseDeoptReference p.deoptReferences (c.deoptTargetKey a)
        freedBytes, freedCodeBytes, freedMetadataBytes })

/-- `evict::plan`; each turn selects another resident artifact, which bounds the
loop. -/
def plan (excluded : ArtifactKey) (bytes codeBytes metadataBytes : Nat) :
    Outcome CacheError (List ArtifactKey) := do
  let p ← Outcome.iterate (c.planStep excluded bytes codeBytes metadataBytes)
    (c.artifacts.entries.length + 1) (c.initialPlan excluded)
  .ok p.selected

/-! ## Insertion -/

/-- The checks on the artifact alone; its charge and metadata bytes. -/
def admission [TypeSizes] (artifact : CompiledArtifact) :
    Outcome CacheError (Nat × Nat) := do
  if c.maxBytes = 0 then Outcome.fail .capacityZero
  else
    let chargeBytes ← Outcome.okOr .chargeOverflow artifact.chargeBytes
    let metadataBytes ← Outcome.okOr .chargeOverflow artifact.metadataBytes
    if c.separateLimits = true ∧
        (c.maxCodeBytes < artifact.codeBytes ∨ c.maxMetadataBytes < metadataBytes) then
      Outcome.fail .artifactTooLarge
    else if c.maxBytes < chargeBytes then Outcome.fail .artifactTooLarge
    else .ok (chargeBytes, metadataBytes)

/-- The baseline an optimizing artifact deoptimizes to. -/
def deoptBaseline (key : ArtifactKey) : Outcome CacheError (Option Address) :=
  match key.tier with
  | .optimizing =>
    match c.artifacts.get? (key.withTier .baseline) with
    | some a => .ok (some a)
    | none => Outcome.fail .missingDeoptTarget
  | .baseline => .ok none

/-- Take the deopt pin of an insertion. -/
def hold : Option Address → CodeCache
  | some a => c.takeDeoptPin a
  | none => c

/-- Drop the deopt pin of a failed insertion. -/
def unhold : Option Address → CodeCache
  | some a => c.dropDeoptPin a
  | none => c

/-- The charges of the artifact a new one replaces. -/
def replacedCharges (key : ArtifactKey) :
    Outcome CacheError (Nat × Nat × Nat) :=
  match c.artifacts.get? key with
  | some a =>
    let x := c.cells a
    if x.isEvictable then .ok (x.chargeBytes, x.codeBytes, x.metadataBytes)
    else Outcome.fail .artifactPinned
  | none => .ok (0, 0, 0)

/-- The artifacts to evict for a new one. -/
def reserve (key : ArtifactKey) (chargeBytes codeBytes metadataBytes : Nat) :
    Outcome CacheError (List ArtifactKey) := do
  let (existingCharge, existingCode, existingMetadata) ← c.replacedCharges key
  let retainedBytes ← Outcome.okOr .chargeOverflow (checkedSub c.chargedBytes existingCharge)
  let desiredBytes ← Outcome.okOr .chargeOverflow (checkedAdd retainedBytes chargeBytes)
  let desiredCode ←
    Outcome.okOr .chargeOverflow (checkedAdd (c.chargedCodeBytes - existingCode) codeBytes)
  let desiredMetadata ← Outcome.okOr .chargeOverflow
    (checkedAdd (c.chargedMetadataBytes - existingMetadata) metadataBytes)
  c.plan key (desiredBytes - c.maxBytes)
    (if c.separateLimits then desiredCode - c.maxCodeBytes else 0)
    (if c.separateLimits then desiredMetadata - c.maxMetadataBytes else 0)

/-- Take out what is replaced and what is evicted. -/
def makeRoom (key : ArtifactKey) (selected : List ArtifactKey) : CodeCache :=
  selected.foldl remove (if c.artifacts.contains key then c.remove key else c)

/-- Put the new artifact into the map. -/
def place (artifact : CompiledArtifact) (target : Option Address)
    (chargeBytes metadataBytes : Nat) : CodeCache :=
  { c with
    artifacts := c.artifacts.insert artifact.key c.next
    cells := Function.update c.cells c.next {
      artifact, executionPins := 0, deoptReferences := 0, lastUsed := c.clock
      invalidated := false, deoptTarget := target, chargeBytes, codeBytes := artifact.codeBytes
      metadataBytes, strong := 1 }
    next := c.next + 1 }

/-- Charge the new artifact; the counters before a failing one stay changed. -/
def charge (chargeBytes codeBytes metadataBytes : Nat) :
    CodeCache × Outcome CacheError Unit :=
  match checkedAdd c.chargedBytes chargeBytes with
  | none => (c, Outcome.fail .chargeOverflow)
  | some chargedBytes =>
    let c := { c with chargedBytes }
    match checkedAdd c.chargedCodeBytes codeBytes with
    | none => (c, Outcome.fail .chargeOverflow)
    | some chargedCodeBytes =>
      let c := { c with chargedCodeBytes }
      match checkedAdd c.chargedMetadataBytes metadataBytes with
      | none => (c, Outcome.fail .chargeOverflow)
      | some chargedMetadataBytes => ({ c with chargedMetadataBytes }, .ok ())

/-- The part of `insert` that changes the map. -/
def commit (artifact : CompiledArtifact) (target : Option Address)
    (chargeBytes metadataBytes : Nat) (selected : List ArtifactKey) :
    CodeCache × Outcome CacheError (List ArtifactKey) :=
  match ((c.makeRoom artifact.key selected).nextTick).charge chargeBytes artifact.codeBytes
      metadataBytes with
  | (c, .ok ()) => (c.place artifact target chargeBytes metadataBytes, .ok selected)
  | (c, .error e) => (c.unhold target, .error e)

/-- `CodeCache::insert`; the evicted keys. A failure drops the deopt pin taken
before it. -/
def insert [TypeSizes] (artifact : CompiledArtifact) :
    CodeCache × Outcome CacheError (List ArtifactKey) :=
  match c.admission artifact with
  | .error e => (c, .error e)
  | .ok (chargeBytes, metadataBytes) =>
    match c.deoptBaseline artifact.key with
    | .error e => (c, .error e)
    | .ok target =>
      let c := c.hold target
      match c.reserve artifact.key chargeBytes artifact.codeBytes metadataBytes with
      | .error e => (c.unhold target, .error e)
      | .ok selected => c.commit artifact target chargeBytes metadataBytes selected

/-! ## Use -/

def touch (key : ArtifactKey) : CodeCache × Bool :=
  let c := c.nextTick
  match c.artifacts.get? key with
  | some a => (c.modify a fun x => { x with lastUsed := c.clock }, true)
  | none => (c, false)

/-- Make an artifact the benefit target. -/
def retarget (a : Address) : CodeCache :=
  let previous := c.lastBenefitTarget
  let c := { c.modify a fun x => { x with strong := x.strong + 1 } with lastBenefitTarget := some a }
  match previous with
  | some b => c.dropArc b
  | none => c

/-- Credit the benefit target. -/
def credit (a : Address) (benefit : Nat) : CodeCache :=
  c.modify a fun x => { x with artifact := x.artifact.recordBenefit benefit, lastUsed := c.clock }

def recordBenefit (key : ArtifactKey) (benefit : Nat) :
    CodeCache × Outcome CacheError Unit :=
  let c := c.nextTick
  match c.lastBenefitTarget.filter fun a => (c.cells a).artifact.key = key with
  | some a => (c.credit a benefit, .ok ())
  | none =>
    match c.artifacts.get? key with
    | some a => ((c.retarget a).credit a benefit, .ok ())
    | none => (c, Outcome.fail .missingArtifact)

/-- `pin`; the address is the execution pin. -/
def pin (key : ArtifactKey) : CodeCache × Option Address :=
  let c := c.nextTick
  match c.artifacts.get? key with
  | some a =>
    if (c.cells a).invalidated then (c, none)
    else
      (c.modify a fun x =>
        { x with strong := x.strong + 1, executionPins := x.executionPins + 1, lastUsed := c.clock },
        some a)
  | none => (c, none)

/-! ## Invalidation -/

/-- The addresses of a function generation's artifacts. -/
def artifactsOf (function : FunctionKey) : List Address :=
  (c.artifacts.entries.filter fun entry => entry.1.function = function).map Prod.snd

def invalidateDeferred (function : FunctionKey) : CodeCache :=
  let matched := c.artifactsOf function
  { c with
    cells := fun a => if a ∈ matched then { c.cells a with invalidated := true } else c.cells a
    reclaimNeeded := c.reclaimNeeded || !matched.isEmpty }

def nextInvalidatedCandidate : Option ArtifactKey :=
  ((c.artifacts.entries.filter fun entry =>
      (c.cells entry.2).invalidated && (c.cells entry.2).isEvictable).argmin
    fun entry => entry.1.tier.reclaimOrder :: entry.1.fields).map Prod.fst

/-- The reclamation loop; each turn takes out a resident artifact, so as many
turns as there are artifacts reach its end. -/
def collectLoop (budget : Nat) : Nat → CodeCache × Nat → CodeCache × Nat
  | 0, state => state
  | fuel + 1, (c, reclaimed) =>
    if reclaimed < budget then
      match c.nextInvalidatedCandidate with
      | some key => collectLoop budget fuel (c.remove key, reclaimed + 1)
      | none => (c, reclaimed)
    else (c, reclaimed)

structure ReclamationPoll where
  reclaimed : Nat
  mayHaveRemaining : Bool
  deriving DecidableEq, Repr

def collectInvalidatedWithBudget (budget : Nat) : CodeCache × ReclamationPoll :=
  let (c, reclaimed) := collectLoop budget c.artifacts.entries.length (c, 0)
  (c, { reclaimed, mayHaveRemaining := c.nextInvalidatedCandidate.isSome })

/-- Collect, and ask again when something may be left. -/
def collectAndSignal (budget : Nat) : CodeCache × ReclamationPoll :=
  let (c, poll) := { c with reclaimNeeded := false }.collectInvalidatedWithBudget budget
  (if poll.mayHaveRemaining then { c with reclaimNeeded := true } else c, poll)

def collectInvalidated : CodeCache × Nat :=
  let (c, poll) := c.collectAndSignal usizeMax
  (c, poll.reclaimed)

def invalidate (function : FunctionKey) : CodeCache × Nat :=
  (c.invalidateDeferred function).collectInvalidated

def pollReclamationWithBudget (budget : Nat) : CodeCache × ReclamationPoll :=
  if c.reclaimNeeded then c.collectAndSignal budget
  else (c, { reclaimed := 0, mayHaveRemaining := false })

def pollReclamation : CodeCache × Nat :=
  let (c, poll) := c.pollReclamationWithBudget usizeMax
  (c, poll.reclaimed)

end CodeCache

end QuickJit
