import QuickJit.Lib.BoundedSet
import QuickJit.Lib.Tracked
import QuickJit.Runtime.ShapeFeedback

/-
  The feedback table (`runtime/feedback.rs`, `runtime/array_feedback.rs`).

  Running code reports what it sees: the types of arguments, operands, results
  and conditions, call targets and array modes. The table keeps a bounded set
  for each, frozen by `snapshot` for the compiler, which asks it for the
  signature of a function (`boundedSpecialization`) and of a call
  (`callSpecializationAt`, `callLinkAt`). Two memos answer repetitions without
  a look at the table: the last call and the four most recent types.

  Correspondence (Rust ↔ Lean):
    `Entry`                             ↔ `BoundedSet ObservedType`
    `Entry::observe`, `observe_bounded_distinct` ↔ `BoundedSet.observe`
    `entry_shape`, `slots_shape`        ↔ `BoundedSet.shape`, `slotsShape`
    `arities`, `arity_megamorphic`      ↔ one `BoundedSet Nat`
    `targets`, `targets_megamorphic`    ↔ one `BoundedSet FunctionKey`
    `(FunctionKey, u32)`                ↔ `Site`
    `BTreeMap::retain`                  ↔ `OrdMap.retain`
  The counters are natural numbers with the wrapping or saturation of `u64`.
-/

namespace QuickJit

namespace Feedback

inductive Kind where
  | value | callTarget | exit
  deriving DecidableEq, Repr

/-- The position of a kind in its derived order. -/
def Kind.rank : Kind → Nat
  | .value => 0
  | .callTarget => 1
  | .exit => 2

inductive State where
  | monomorphic | polymorphic | megamorphic
  deriving DecidableEq, Repr

inductive Representation where
  | int32 | float64 | heapRef | bool
  deriving DecidableEq, Repr

/-- `FeedbackKey`. -/
structure Key where
  function : FunctionKey
  pc : Nat
  kind : Kind
  deriving Repr

/-- What the derived order compares. -/
def Key.fields (key : Key) : List Nat :=
  [key.function.id, key.function.generation, key.pc, key.kind.rank]

theorem Key.fields_injective : Function.Injective Key.fields := by
  rintro ⟨⟨_, _⟩, _, kind⟩ ⟨⟨_, _⟩, _, kind'⟩ h
  cases kind <;> cases kind' <;> simp_all [Key.fields, Kind.rank]

instance : LinearOrder Key := LinearOrder.lift' Key.fields Key.fields_injective

/-- A bytecode position of a function. -/
structure Site where
  function : FunctionKey
  pc : Nat
  deriving Repr

def Site.fields (site : Site) : List Nat := [site.function.id, site.function.generation, site.pc]

theorem Site.fields_injective : Function.Injective Site.fields := by
  rintro ⟨⟨_, _⟩, _⟩ ⟨⟨_, _⟩, _⟩ h
  simp_all [Site.fields]

instance : LinearOrder Site := LinearOrder.lift' Site.fields Site.fields_injective

/-- `u64::saturating_add(1)`. -/
def saturatingSucc (n : Nat) : Nat := min (n + 1) (2 ^ 64 - 1)

/-! ## Cells -/

abbrev Entry := BoundedSet ObservedType

/-- The state of one cell, as `Entry::observe` returns it. -/
def cellState {α : Type} (s : BoundedSet α) : State :=
  if s.megamorphic then .megamorphic
  else if s.observations.length = 1 then .monomorphic else .polymorphic

/-- `combined_state`. -/
def combinedState (entries : List Entry) (additionalPolymorphism : Bool) : State :=
  if entries.any BoundedSet.megamorphic then .megamorphic
  else if additionalPolymorphism || entries.any (fun e => decide (1 < e.observations.length)) then
    .polymorphic
  else .monomorphic

/-- `CallFeedbackEntry`: what a function is called with. -/
@[ext] structure CallEntry where
  slots : List Entry
  arities : BoundedSet Nat
  deriving DecidableEq, Repr

namespace CallEntry

def empty : CallEntry := ⟨[], .empty⟩

def shape (call : CallEntry) : (Nat × Bool) × Nat × Nat × Nat :=
  (call.arities.shape, call.slots.length, BoundedSet.slotsShape call.slots)

def observe (limit : Nat) (call : CallEntry) (arguments : List ObservedType) : CallEntry where
  slots := BoundedSet.observeSlots limit call.slots arguments
  arities := call.arities.observe limit arguments.length

end CallEntry

@[ext] structure BinaryEntry where
  lhs : Entry
  rhs : Entry
  result : Entry
  flags : BitVec 32
  deriving DecidableEq, Repr

/-- One operation: its operands, result and what happened. -/
structure BinaryEvent where
  lhs : ObservedType
  rhs : ObservedType
  result : ObservedType
  flags : BitVec 32
  deriving DecidableEq, Repr

namespace BinaryEntry

def empty : BinaryEntry := ⟨.empty, .empty, .empty, 0⟩

def shape (e : BinaryEntry) : (Nat × Bool) × (Nat × Bool) × (Nat × Bool) × BitVec 32 :=
  (e.lhs.shape, e.rhs.shape, e.result.shape, e.flags)

def observe (limit : Nat) (e : BinaryEntry) (seen : BinaryEvent) : BinaryEntry where
  lhs := e.lhs.observe limit seen.lhs
  rhs := e.rhs.observe limit seen.rhs
  result := e.result.observe limit seen.result
  flags := e.flags ||| seen.flags

/-- The state `observe_binary` returns. -/
def observedState (e : BinaryEntry) : State :=
  let states := [cellState e.lhs, cellState e.rhs, cellState e.result]
  if .megamorphic ∈ states then .megamorphic
  else if .polymorphic ∈ states then .polymorphic else .monomorphic

end BinaryEntry

@[ext] structure ConversionEntry where
  operand : Entry
  result : Entry
  deriving DecidableEq, Repr

structure ConversionEvent where
  operand : ObservedType
  result : ObservedType
  deriving DecidableEq, Repr

namespace ConversionEntry

def empty : ConversionEntry := ⟨.empty, .empty⟩

def shape (e : ConversionEntry) : (Nat × Bool) × (Nat × Bool) := (e.operand.shape, e.result.shape)

def observe (limit : Nat) (e : ConversionEntry) (seen : ConversionEvent) : ConversionEntry where
  operand := e.operand.observe limit seen.operand
  result := e.result.observe limit seen.result

def state (e : ConversionEntry) : State := combinedState [e.operand, e.result] false

end ConversionEntry

@[ext] structure BranchEntry where
  conditionTypes : Entry
  outcomes : BitVec 8
  deriving DecidableEq, Repr

structure BranchEvent where
  conditionType : ObservedType
  taken : Bool
  deriving DecidableEq, Repr

namespace BranchEntry

def empty : BranchEntry := ⟨.empty, 0⟩

def shape (e : BranchEntry) : (Nat × Bool) × BitVec 8 := (e.conditionTypes.shape, e.outcomes)

def observe (limit : Nat) (e : BranchEntry) (seen : BranchEvent) : BranchEntry where
  conditionTypes := e.conditionTypes.observe limit seen.conditionType
  outcomes := e.outcomes ||| if seen.taken then 1 else 2

def state (e : BranchEntry) : State := combinedState [e.conditionTypes] (e.outcomes = 3)

end BranchEntry

/-- `CallSignatureFeedbackEntry`: what a call site calls, with what, for what. -/
@[ext] structure CallSignatureEntry where
  targets : BoundedSet FunctionKey
  arities : BoundedSet Nat
  arguments : List Entry
  results : Entry
  calleeIdentity : Nat
  calleeBytecodeIdentity : Nat
  deriving DecidableEq, Repr

structure CallSignatureEvent where
  callee : FunctionKey
  calleeIdentity : Nat
  calleeBytecodeIdentity : Nat
  arguments : List ObservedType
  result : ObservedType
  deriving DecidableEq, Repr

namespace CallSignatureEntry

/-- A new site has the identities of its first call. -/
def empty (calleeIdentity calleeBytecodeIdentity : Nat) : CallSignatureEntry :=
  ⟨.empty, .empty, [], .empty, calleeIdentity, calleeBytecodeIdentity⟩

def shape (e : CallSignatureEntry) :
    (Nat × Bool) × (Nat × Bool) × Nat × (Nat × Nat) × (Nat × Bool) × Nat × Nat :=
  (e.targets.shape, e.arities.shape, e.arguments.length, BoundedSet.slotsShape e.arguments,
    e.results.shape, e.calleeIdentity, e.calleeBytecodeIdentity)

/-- Another identity makes the targets megamorphic; what they list stays. -/
def identify (e : CallSignatureEntry) (calleeIdentity calleeBytecodeIdentity : Nat) :
    CallSignatureEntry :=
  let e := if e.calleeIdentity ≠ calleeIdentity then
    { e with targets := { e.targets with megamorphic := true }, calleeIdentity := 0 } else e
  if e.calleeBytecodeIdentity ≠ calleeBytecodeIdentity then
    { e with targets := { e.targets with megamorphic := true }, calleeBytecodeIdentity := 0 } else e

def observe (limit : Nat) (e : CallSignatureEntry) (seen : CallSignatureEvent) :
    CallSignatureEntry :=
  let e := e.identify seen.calleeIdentity seen.calleeBytecodeIdentity
  { e with
    targets := e.targets.observe limit seen.callee
    arities := e.arities.observe limit seen.arguments.length
    arguments := BoundedSet.observeSlots limit e.arguments seen.arguments
    results := e.results.observe limit seen.result }

/-- `call_signature_state`. -/
def state (e : CallSignatureEntry) : State :=
  if e.targets.megamorphic || e.arities.megamorphic || e.results.megamorphic ||
      e.arguments.any BoundedSet.megamorphic then .megamorphic
  else if e.targets.observations.length ≠ 1 ∨ e.arities.observations.length ≠ 1 ∨
      e.results.observations.length ≠ 1 ∨
      e.arguments.any (fun slot => decide (slot.observations.length ≠ 1)) then .polymorphic
  else .monomorphic

/-- `call_target_state`. -/
def targetState (e : CallSignatureEntry) : State := cellState e.targets

end CallSignatureEntry

/-! ## Array sites -/

inductive ArrayMode where
  | generic | packed | int32 | float64
  deriving DecidableEq, Repr

def ArrayMode.bit : ArrayMode → BitVec 8
  | .generic => 1
  | .packed => 2
  | .int32 => 4
  | .float64 => 8

inductive ArrayAccess where
  | load | store | length
  deriving DecidableEq, Repr

structure ArrayEvent where
  access : ArrayAccess
  mode : ArrayMode
  hazards : BitVec 32
  deriving DecidableEq, Repr

def storeFlag : BitVec 32 := 1 <<< 6
def lengthFlag : BitVec 32 := 1 <<< 7
def hazardMask : BitVec 32 := ((1#32 <<< 15) - 1) &&& ~~~((1#32 <<< 8) - 1)

/-- `decode`: an observation as it comes over the wire. -/
def decodeArray (mode : Nat) (flags : BitVec 32) : Option ArrayEvent := do
  if flags &&& ~~~(storeFlag ||| lengthFlag ||| hazardMask) ≠ 0 then none
  let access ←
    if flags &&& (storeFlag ||| lengthFlag) = 0 then some .load
    else if flags &&& (storeFlag ||| lengthFlag) = storeFlag then some .store
    else if flags &&& (storeFlag ||| lengthFlag) = lengthFlag then some .length
    else none
  let mode ← match mode with
    | 0 => some .generic
    | 1 => some .packed
    | 2 => some .int32
    | 3 => some .float64
    | _ => none
  some ⟨access, mode, flags &&& hazardMask⟩

/-- `ArrayFeedbackSnapshot`, without the function and pc it is stored under. -/
structure ArrayEntry where
  access : ArrayAccess
  modes : BitVec 8
  hazards : BitVec 32
  state : State
  deriving DecidableEq, Repr

/-- `u8::count_ones`. -/
def countOnes (bits : BitVec 8) : Nat := (List.range 8).countP fun i => bits.getLsbD i

namespace ArrayEntry

/-- A new site has the access of its first observation. -/
def empty (access : ArrayAccess) : ArrayEntry := ⟨access, 0, 0, .monomorphic⟩

def observe (limit : Nat) (e : ArrayEntry) (seen : ArrayEvent) : ArrayEntry :=
  let modes := e.modes ||| seen.mode.bit
  { e with
    modes
    hazards := e.hazards ||| seen.hazards
    state :=
      if e.state = .megamorphic ∨ e.access ≠ seen.access ∨ limit < countOnes modes then .megamorphic
      else if 1 < countOnes modes then .polymorphic else .monomorphic }

end ArrayEntry

structure ArrayTable where
  capacity : Nat
  diversityLimit : Nat
  entries : OrdMap Site ArrayEntry
  version : Nat
  dropped : Nat
  deriving DecidableEq

namespace ArrayTable

def new (capacity diversityLimit : Nat) : ArrayTable where
  capacity := capacity
  diversityLimit := min (max diversityLimit 1) 3
  entries := .empty
  version := 0
  dropped := 0

def forgetFunction (t : ArrayTable) (function : FunctionKey) : ArrayTable :=
  { t with entries := t.entries.retain fun site => site.function ≠ function }

def observe (t : ArrayTable) (site : Site) (seen : ArrayEvent) : ArrayTable × State :=
  if t.entries.contains site = false ∧ t.capacity ≤ t.entries.entries.length then
    ({ t with dropped := saturatingSucc t.dropped }, .megamorphic)
  else
    let before := (t.entries.get? site).getD (.empty seen.access)
    let entry := before.observe t.diversityLimit seen
    ({ t with
       entries := t.entries.insert site entry
       version := if entry ≠ before then saturatingSucc t.version else t.version }, entry.state)

end ArrayTable

/-! ## The table -/

/-- A memo of `observe_type`: what it answered at which version. -/
structure RecentType where
  key : Key
  observation : ObservedType
  state : State
  version : Nat
  deriving DecidableEq

/-- `FeedbackTable`. -/
structure Table where
  capacity : Nat
  diversityLimit : Nat
  dropped : Nat
  version : Nat
  recentTypes : List (Option RecentType)
  recentTypeCursor : Nat
  lastCall : Option FunctionKey
  lastCallArguments : List ObservedType
  entries : OrdMap Key Entry
  calls : OrdMap FunctionKey CallEntry
  binaries : OrdMap Site BinaryEntry
  conversions : OrdMap Site ConversionEntry
  branches : OrdMap Site BranchEntry
  callSignatures : OrdMap Site CallSignatureEntry
  arrays : ArrayTable
  deriving DecidableEq

namespace Table

def new (capacity diversityLimit : Nat) : Table where
  capacity := capacity
  diversityLimit := max diversityLimit 1
  dropped := 0
  version := 0
  recentTypes := List.replicate 4 none
  recentTypeCursor := 0
  lastCall := none
  lastCallArguments := []
  entries := .empty
  calls := .empty
  binaries := .empty
  conversions := .empty
  branches := .empty
  callSignatures := .empty
  arrays := .new capacity diversityLimit

def forgetFunction (t : Table) (function : FunctionKey) : Table :=
  { t with
    entries := t.entries.retain fun key => key.function ≠ function
    calls := t.calls.erase function
    binaries := t.binaries.retain fun site => site.function ≠ function
    conversions := t.conversions.retain fun site => site.function ≠ function
    branches := t.branches.retain fun site => site.function ≠ function
    callSignatures := t.callSignatures.retain fun site => site.function ≠ function
    arrays := t.arrays.forgetFunction function
    lastCall := if t.lastCall = some function then none else t.lastCall
    lastCallArguments := if t.lastCall = some function then [] else t.lastCallArguments
    recentTypes := List.replicate 4 none }

def observeArray (t : Table) (site : Site) (seen : ArrayEvent) : Table × State :=
  let (arrays, state) := t.arrays.observe site seen
  ({ t with
     arrays
     version := if arrays.version ≠ t.arrays.version then saturatingSucc t.version
       else t.version }, state)

/-- A malformed observation is rejected before it touches a site. -/
def observeArrayRaw (t : Table) (site : Site) (mode : Nat) (flags : BitVec 32) :
    Table × Option State :=
  match decodeArray mode flags with
  | none => (t, none)
  | some seen => ((t.observeArray site seen).1, some (t.observeArray site seen).2)

/-- `observe_call` past its memo. -/
def recordCall (t : Table) (function : FunctionKey) (arguments : List ObservedType) : Table :=
  let before := (t.calls.get? function).getD .empty
  let call := before.observe t.diversityLimit arguments
  { t with
    calls := t.calls.insert function call
    version := if t.calls.contains function = false ∨ before.shape ≠ call.shape then
      wrappingSucc t.version else t.version
    lastCall := some function
    lastCallArguments := arguments }

def observeCall (t : Table) (function : FunctionKey) (arguments : List ObservedType) : Table :=
  if t.lastCall = some function ∧ t.lastCallArguments = arguments then t
  else t.recordCall function arguments

def observeBinary (t : Table) (site : Site) (seen : BinaryEvent) : Table × State :=
  let before := (t.binaries.get? site).getD .empty
  let entry := before.observe t.diversityLimit seen
  ({ t with
     binaries := t.binaries.insert site entry
     version := if before.shape ≠ entry.shape then wrappingSucc t.version else t.version },
   entry.observedState)

def observeConversion (t : Table) (site : Site) (seen : ConversionEvent) : Table × State :=
  let before := (t.conversions.get? site).getD .empty
  let entry := before.observe t.diversityLimit seen
  ({ t with
     conversions := t.conversions.insert site entry
     version := if before.shape ≠ entry.shape then wrappingSucc t.version else t.version },
   entry.state)

def observeBranch (t : Table) (site : Site) (seen : BranchEvent) : Table × State :=
  let before := (t.branches.get? site).getD .empty
  let entry := before.observe t.diversityLimit seen
  ({ t with
     branches := t.branches.insert site entry
     version := if before.shape ≠ entry.shape then wrappingSucc t.version else t.version },
   entry.state)

def observeCallSignatureWithIdentity (t : Table) (site : Site) (seen : CallSignatureEvent) :
    Table × State :=
  let before := (t.callSignatures.get? site).getD
    (.empty seen.calleeIdentity seen.calleeBytecodeIdentity)
  let entry := before.observe t.diversityLimit seen
  ({ t with
     callSignatures := t.callSignatures.insert site entry
     version := if before.shape ≠ entry.shape then wrappingSucc t.version else t.version },
   entry.state)

def observeCallSignature (t : Table) (site : Site) (callee : FunctionKey)
    (arguments : List ObservedType) (result : ObservedType) : Table × State :=
  t.observeCallSignatureWithIdentity site ⟨callee, 0, 0, arguments, result⟩

/-- What `observe_type` does to an entry it has found or made, `before` the
shape of one it has found. -/
def recordEntry (t : Table) (key : Key) (entry : Entry) (before : Option (Nat × Bool))
    (observation : ObservedType) : Table × State :=
  let entry := entry.observe t.diversityLimit observation
  let version := if before ≠ some entry.shape then wrappingSucc t.version else t.version
  ({ t with
     entries := t.entries.insert key entry
     version
     recentTypes := t.recentTypes.set t.recentTypeCursor
       (some ⟨key, observation, cellState entry, version⟩)
     recentTypeCursor := (t.recentTypeCursor + 1) % t.recentTypes.length }, cellState entry)

/-- `observe_type` past its memo. -/
def recordType (t : Table) (key : Key) (observation : ObservedType) : Table × State :=
  match t.entries.get? key with
  | some entry => t.recordEntry key entry (some entry.shape) observation
  | none =>
    if t.capacity ≤ t.entries.entries.length then
      ({ t with dropped := saturatingSucc t.dropped }, .megamorphic)
    else t.recordEntry key .empty none observation

/-- The memo of an observation at this version. -/
def recentType (t : Table) (key : Key) (observation : ObservedType) : Option RecentType :=
  t.recentTypes.reduceOption.find? fun r =>
    r.key = key ∧ r.observation = observation ∧ r.version = t.version

def observeType (t : Table) (key : Key) (observation : ObservedType) : Table × State :=
  match t.recentType key observation with
  | some recent => (t, recent.state)
  | none => t.recordType key observation

def observeReturn (t : Table) (site : Site) (result : ObservedType) : Table :=
  (t.observeType ⟨site.function, site.pc, .exit⟩ result).1

end Table

/-- What is reported to the table. -/
inductive Op where
  | call (function : FunctionKey) (arguments : List ObservedType)
  | exit (site : Site) (result : ObservedType)
  | type (key : Key) (observation : ObservedType)
  | binary (site : Site) (seen : BinaryEvent)
  | conversion (site : Site) (seen : ConversionEvent)
  | branch (site : Site) (seen : BranchEvent)
  | callSignature (site : Site) (callee : FunctionKey) (arguments : List ObservedType)
      (result : ObservedType)
  | callSignatureWithIdentity (site : Site) (seen : CallSignatureEvent)
  | array (site : Site) (seen : ArrayEvent)
  | arrayRaw (site : Site) (mode : Nat) (flags : BitVec 32)
  | forget (function : FunctionKey)

/-- All operations but `forget_function`. -/
def Op.observes : Op → Bool
  | .forget _ => false
  | _ => true

namespace Table

/-- One operation, with the state it returns. -/
def step (t : Table) : Op → Table × Option State
  | .call function arguments => (t.observeCall function arguments, none)
  | .exit site result => (t.observeReturn site result, none)
  | .type key observation =>
    ((t.observeType key observation).1, some (t.observeType key observation).2)
  | .binary site seen => ((t.observeBinary site seen).1, some (t.observeBinary site seen).2)
  | .conversion site seen =>
    ((t.observeConversion site seen).1, some (t.observeConversion site seen).2)
  | .branch site seen => ((t.observeBranch site seen).1, some (t.observeBranch site seen).2)
  | .callSignature site callee arguments result =>
    ((t.observeCallSignature site callee arguments result).1,
      some (t.observeCallSignature site callee arguments result).2)
  | .callSignatureWithIdentity site seen =>
    ((t.observeCallSignatureWithIdentity site seen).1,
      some (t.observeCallSignatureWithIdentity site seen).2)
  | .array site seen => ((t.observeArray site seen).1, some (t.observeArray site seen).2)
  | .arrayRaw site mode flags => t.observeArrayRaw site mode flags
  | .forget function => (t.forgetFunction function, none)

/-- The table after some operations. -/
def run (t : Table) (ops : List Op) : Table := ops.foldl (fun t op => (t.step op).1) t

end Table

/-! ## Snapshots -/

structure SnapshotEntry where
  key : Key
  state : State
  observations : List ObservedType
  deriving DecidableEq

structure CallSnapshot where
  function : FunctionKey
  state : State
  arguments : List (List ObservedType)
  stableTypes : Option (List ObservedType)
  stableArity : Option Nat
  deriving DecidableEq

structure BinarySnapshot where
  site : Site
  state : State
  lhs : List ObservedType
  rhs : List ObservedType
  result : List ObservedType
  flags : BitVec 32
  deriving DecidableEq

structure ConversionSnapshot where
  site : Site
  state : State
  operand : List ObservedType
  result : List ObservedType
  deriving DecidableEq

structure BranchSnapshot where
  site : Site
  state : State
  conditionTypes : List ObservedType
  outcomes : BitVec 8
  deriving DecidableEq

structure CallSignatureSnapshot where
  site : Site
  state : State
  targetState : State
  targets : List FunctionKey
  stableArity : Option Nat
  arguments : List (List ObservedType)
  results : List ObservedType
  calleeIdentity : Nat
  calleeBytecodeIdentity : Nat
  deriving DecidableEq

structure ArraySnapshot where
  site : Site
  entry : ArrayEntry
  deriving DecidableEq

structure Snapshot where
  epoch : Nat
  entries : List SnapshotEntry
  calls : List CallSnapshot
  binaries : List BinarySnapshot
  conversions : List ConversionSnapshot
  branches : List BranchSnapshot
  callSignatures : List CallSignatureSnapshot
  arrays : List ArraySnapshot
  deriving DecidableEq

/-- The only element of a list. -/
def single {α : Type} : List α → Option α
  | [a] => some a
  | _ => none

def Entry.snapshot (key : Key) (e : Entry) : SnapshotEntry := ⟨key, cellState e, e.observations⟩

def CallEntry.state (call : CallEntry) : State :=
  if call.arities.megamorphic || call.slots.any BoundedSet.megamorphic then .megamorphic
  else if call.arities.observations.length ≠ 1 ∨
      call.slots.any (fun slot => decide (slot.observations.length ≠ 1)) then .polymorphic
  else .monomorphic

def CallEntry.snapshot (function : FunctionKey) (call : CallEntry) : CallSnapshot where
  function := function
  state := call.state
  arguments := call.slots.map BoundedSet.observations
  stableTypes :=
    -- every slot of a monomorphic call has its one observation
    if call.state = .monomorphic then some (call.slots.filterMap fun slot => slot.observations.head?)
    else none
  stableArity := single call.arities.observations

def BinaryEntry.snapshot (site : Site) (e : BinaryEntry) : BinarySnapshot :=
  ⟨site, combinedState [e.lhs, e.rhs, e.result] false, e.lhs.observations, e.rhs.observations,
    e.result.observations, e.flags⟩

def ConversionEntry.snapshot (site : Site) (e : ConversionEntry) : ConversionSnapshot :=
  ⟨site, e.state, e.operand.observations, e.result.observations⟩

def BranchEntry.snapshot (site : Site) (e : BranchEntry) : BranchSnapshot :=
  ⟨site, e.state, e.conditionTypes.observations, e.outcomes⟩

def CallSignatureEntry.snapshot (site : Site) (e : CallSignatureEntry) : CallSignatureSnapshot where
  site := site
  state := e.state
  targetState := e.targetState
  targets := e.targets.observations
  stableArity := single e.arities.observations
  arguments := e.arguments.map BoundedSet.observations
  results := e.results.observations
  calleeIdentity := e.calleeIdentity
  calleeBytecodeIdentity := e.calleeBytecodeIdentity

/-- `FeedbackTable::snapshot`. -/
def Table.snapshot (t : Table) (epoch : Nat) : Snapshot where
  epoch := epoch
  entries := t.entries.entries.map fun e => e.2.snapshot e.1
  calls := t.calls.entries.map fun e => e.2.snapshot e.1
  binaries := t.binaries.entries.map fun e => e.2.snapshot e.1
  conversions := t.conversions.entries.map fun e => e.2.snapshot e.1
  branches := t.branches.entries.map fun e => e.2.snapshot e.1
  callSignatures := t.callSignatures.entries.map fun e => e.2.snapshot e.1
  arrays := t.arrays.entries.entries.map fun e => ⟨e.1, e.2⟩

/-! ## What the compiler asks a snapshot -/

/-- `MAX_SPECIALIZED_ARGUMENTS`. -/
def maxSpecializedArguments : Nat := 8

def observedRepresentation : ObservedType → Option Representation
  | .int32 => some .int32
  | .float64 => some .float64
  | .object => some .heapRef
  | .bool => some .bool
  | _ => none

def observedScalarRepresentation : ObservedType → Option Representation
  | .int32 => some .int32
  | .float64 => some .float64
  | .bool => some .bool
  | _ => none

/-- `CallSpecializationKey`. -/
structure CallSpecialization where
  caller : FunctionKey
  callee : FunctionKey
  arguments : List Representation
  result : Representation
  feedbackEpoch : Nat
  calleeIdentity : Nat
  calleeBytecodeIdentity : Nat
  deriving DecidableEq

structure CallLinkStatus where
  site : Site
  callee : FunctionKey
  calleeIdentity : Nat
  calleeBytecodeIdentity : Nat
  deriving DecidableEq

/-- `BoundedSpecializationSignature`. -/
structure BoundedSpecialization where
  function : FunctionKey
  arguments : List Representation
  result : Representation
  feedbackEpoch : Nat
  deriving DecidableEq

/-- The loop over the return cells of a function: they must all be monomorphic
and agree. -/
def returnType : List SnapshotEntry → Option ObservedType → Option (Option ObservedType)
  | [], prior => some prior
  | e :: rest, prior => do
    if e.state ≠ .monomorphic then none
    let observed ← single e.observations
    if prior.any (· ≠ observed) then none
    returnType rest (some observed)

/-- The operand type that numeric feedback must agree with. -/
def Representation.expected : Representation → Option ObservedType
  | .int32 => some .int32
  | .float64 => some .float64
  | .heapRef | .bool => none

/-- The operation has seen `expected` and nothing else. -/
def BinarySnapshot.agrees (binary : BinarySnapshot) (expected : Option ObservedType) : Bool :=
  binary.state = .monomorphic ∧ binary.lhs = expected.toList ∧ binary.rhs = expected.toList ∧
    binary.result = expected.toList

namespace Snapshot

def callAt (s : Snapshot) (function : FunctionKey) : Option CallSnapshot :=
  s.calls.find? fun call => call.function = function

def callSignatureAt (s : Snapshot) (site : Site) : Option CallSignatureSnapshot :=
  s.callSignatures.find? fun call => call.site = site

def callSpecializationAt (s : Snapshot) (site : Site) : Option CallSpecialization := do
  if s.epoch = 0 then none
  let call ← s.callSignatureAt site
  if call.state ≠ .monomorphic then none
  let callee ← single call.targets
  let arity ← call.stableArity
  if maxSpecializedArguments < arity ∨ call.arguments.length ≠ arity then none
  let arguments ← call.arguments.mapM fun observations =>
    (single observations).bind observedRepresentation
  let observed ← single call.results
  let result ← observedScalarRepresentation observed
  some ⟨site.function, callee, arguments, result, s.epoch, call.calleeIdentity,
    call.calleeBytecodeIdentity⟩

def callLinkAt (s : Snapshot) (site : Site) : Option CallLinkStatus := do
  if s.epoch = 0 ∨ site.function.id = 0 ∨ site.function.generation = 0 then none
  let call ← s.callSignatureAt site
  if call.targetState ≠ .monomorphic then none
  let callee ← single call.targets
  if call.calleeIdentity = 0 ∨ call.calleeBytecodeIdentity = 0 then none
  if callee.id = 0 ∨ callee.generation = 0 then none
  some ⟨site, callee, call.calleeIdentity, call.calleeBytecodeIdentity⟩

def boundedSpecialization (s : Snapshot) (function : FunctionKey) :
    Option BoundedSpecialization := do
  if s.epoch = 0 then none
  let call ← s.callAt function
  let arity ← call.stableArity
  if call.state ≠ .monomorphic ∨ maxSpecializedArguments < arity then none
  let argumentTypes ← call.stableTypes
  if argumentTypes.length ≠ arity then none
  let observed ← returnType
    (s.entries.filter fun e => e.key.function = function ∧ e.key.kind = .exit) none
  let returned ← observed
  let representation ← observedScalarRepresentation returned
  let arguments ← argumentTypes.mapM observedRepresentation
  if representation ≠ .bool ∧
      (s.binaries.filter fun b => b.site.function = function).countP
        (fun b => b.agrees representation.expected) = 0 then none
  some ⟨function, arguments, representation, s.epoch⟩

end Snapshot

end Feedback

end QuickJit
