import QuickJit.Ir.Expressions

/-
  The scalar graph (`ir/scalar.rs`, `ir/heap.rs`): SSA values over frame slots.

  A value is an input of a block, a phi, a read of a slot after a node that may
  have changed it, a constant, or the result of a node. For every node that can
  leave optimized code or run other code the graph keeps the values of the
  whole frame just before it (`ScalarFrameState`).

  `Definition.origin` is a history variable: the place a value is computed at,
  and, for the result of a node, which of the node's results it is; the steps of
  an inlined call are numbered after the call's own result. Tables that
  the source keeps as vectors indexed by node are functions of the node's id;
  the value at an id the source's vector does not have is the one its accessor
  returns.
-/

namespace QuickJit

inductive ScalarBinaryOp where
  | add | sub | mul | div
  deriving DecidableEq, Repr

inductive ScalarBitwiseOp where
  | or | and | xor | shl | sar | shr
  deriving DecidableEq, Repr

inductive ScalarCompareOp where
  | lessThan | lessEqual | greaterThan | greaterEqual
  deriving DecidableEq, Repr

/-- `ScalarBinaryOp::from_opcode`. -/
def ScalarBinaryOp.fromOpcode : OpName → Option ScalarBinaryOp
  | .add => some .add
  | .sub => some .sub
  | .mul => some .mul
  | .div => some .div
  | _ => none

/-- A phi input; `predecessor = none` is the entry of the function. -/
structure ScalarPhiInput where
  predecessor : Option Nat
  value : Nat
  deriving DecidableEq, Repr

structure ScalarFrameState where
  pc : Nat
  arguments : List Nat
  locals : List Nat
  stack : List Nat
  parent : Option Nat
  deriving DecidableEq, Repr

def ScalarFrameState.slot? (s : ScalarFrameState) : FrameSlot → Option Nat
  | .argument index => s.arguments[index]?
  | .loc index => s.locals[index]?
  | .stack index => s.stack[index]?

structure ScalarInlineStep where
  value : Nat
  frame : Option ScalarFrameState
  deriving DecidableEq, Repr

structure ScalarInlineRegion where
  steps : List ScalarInlineStep
  result : Nat
  deriving DecidableEq, Repr

structure ScalarCall where
  target : Nat
  receiver : Option Nat
  arguments : List Nat
  frameStateNode : Nat
  inline : Option ScalarInlineRegion
  deriving DecidableEq, Repr

inductive ScalarValue where
  | int32 (value : Int)
  | bool (value : Bool)
  | input (blockPc : Nat) (slot : FrameSlot)
  | phi (blockPc : Nat) (slot : FrameSlot) (inputs : List ScalarPhiInput)
  | frameRead (node : Nat) (slot : FrameSlot)
  | binary (mode : ScalarNumericMode) (op : ScalarBinaryOp) (lhs rhs : Nat)
  | update (mode : ScalarNumericMode) (input : Nat) (delta : Int)
  | bitwise (op : ScalarBitwiseOp) (lhs rhs : Nat)
  | compare (op : ScalarCompareOp) (lhs rhs : Nat)
  | call (call : ScalarCall)
  | getProperty (base atom frameStateNode : Nat)
  | getElement (base index frameStateNode : Nat)
  | opaqueValue
  deriving DecidableEq, Repr

structure ScalarCheck where
  value : Nat
  mode : ScalarNumericMode
  frameStateNode : Nat
  eliminated : Bool
  deriving DecidableEq, Repr

/-! ## Heap effects -/

inductive HeapKey where
  | property (atom : Nat)
  | element (index : Nat)
  deriving DecidableEq, Repr

structure HeapLocation where
  base : Nat
  key : HeapKey
  deriving DecidableEq, Repr

inductive ScalarHeapEffect where
  | pure
  | frameWrite (slot : FrameSlot)
  | read (location : HeapLocation)
  | write (location : HeapLocation)
  | reentrant
  | safepoint
  | exit
  deriving DecidableEq, Repr

inductive ScalarHeapOperation where
  | getProperty (base atom result frameStateNode : Nat)
  | putProperty (base atom value frameStateNode : Nat)
  | getElement (base index result frameStateNode : Nat)
  | putElement (base index value frameStateNode : Nat)
  deriving DecidableEq, Repr

def ScalarHeapOperation.location : ScalarHeapOperation → HeapLocation
  | .getProperty base atom _ _ | .putProperty base atom _ _ => ⟨base, .property atom⟩
  | .getElement base index _ _ | .putElement base index _ _ => ⟨base, .element index⟩

/-! ## The graph -/

/-- Where a value is computed. -/
inductive ValueOrigin where
  | entry
  | block (pc : Nat)
  | node (id output : Nat)
  deriving DecidableEq, Repr

structure Definition where
  value : ScalarValue
  origin : ValueOrigin
  deriving DecidableEq, Repr

structure ScalarGraph where
  definitions : List Definition
  checks : Nat → List ScalarCheck
  nodeValues : Nat → Option Nat
  nodeOutputs : Nat → List Nat
  frameDefinitions : Nat → List (FrameSlot × Nat)
  blockInputs : OrdMap Nat (List (FrameSlot × Nat))
  frameStates : Nat → Option ScalarFrameState
  heapOperations : Nat → Option ScalarHeapOperation
  heapEffects : Nat → ScalarHeapEffect
  stateEntries : Nat
  valueLimit : Nat
  /-- `node_values.len()`. -/
  nodeCount : Nat

namespace ScalarGraph

def value? (g : ScalarGraph) (v : Nat) : Option ScalarValue := g.definitions[v]?.map (·.value)

/-- `inputs_for_block`. -/
def inputsForBlock (g : ScalarGraph) (pc : Nat) : List (FrameSlot × Nat) :=
  (g.blockInputs.get? pc).getD []

/-- The graph that `rewrite` starts from. -/
def initial (nodeCount : Nat) : ScalarGraph where
  definitions := []
  checks := fun _ => []
  nodeValues := fun _ => none
  nodeOutputs := fun _ => []
  frameDefinitions := fun _ => []
  blockInputs := OrdMap.empty
  frameStates := fun _ => none
  heapOperations := fun _ => none
  heapEffects := fun _ => .reentrant
  stateEntries := 0
  valueLimit := nodeCount * 16
  nodeCount := nodeCount

/-- `push`. -/
def push (g : ScalarGraph) (origin : ValueOrigin) (value : ScalarValue) :
    CompileOutcome (Nat × ScalarGraph) :=
  if g.valueLimit ≤ g.definitions.length ∨ 2 ^ 32 ≤ g.definitions.length then
    Outcome.fail .resourceLimit
  else .ok (g.definitions.length, { g with definitions := g.definitions ++ [⟨value, origin⟩] })

/-- Push one value for each slot of a list. -/
def allocate (origin : ValueOrigin) (make : FrameSlot → ScalarValue) (g : ScalarGraph)
    (slots : List FrameSlot) : CompileOutcome (List (FrameSlot × Nat) × ScalarGraph) :=
  collectM (fun g slot => do
    let (v, g) ← g.push origin (make slot)
    .ok ((slot, v), g)) g slots

end ScalarGraph

/-- The value a list of bindings has for a slot. -/
def bindingOf (bindings : List (FrameSlot × Nat)) (slot : FrameSlot) : Option Nat :=
  (bindings.find? fun b => b.1 = slot).map (·.2)

/-! ## Pure inlining -/

/-- One value of an inlined callee; indices are positions in the plan. -/
inductive InlineValue where
  | argument (index : Nat)
  | int32 (value : Int)
  | bool (value : Bool)
  | binary (op : ScalarBinaryOp) (lhs rhs pc : Nat) (stack : List Nat)
  deriving DecidableEq, Repr

structure InlinePlan where
  values : List InlineValue
  result : Nat
  deriving DecidableEq, Repr

/-- A callee that may be inlined: how many arguments its call site has and the
plan made for the arguments known to be constant Booleans. -/
structure InlineCallee where
  argumentCount : Nat
  plan : (Nat → Option Bool) → Option InlinePlan

/-- The entries of the frame states a plan needs. -/
def InlineValue.stateEntries (argumentCount : Nat) : InlineValue → Nat
  | .binary _ _ _ _ stack => stack.length + argumentCount
  | _ => 0

/-- The variables of the loop of `expand_inline`. -/
structure Inlining where
  graph : ScalarGraph
  mapped : List Nat
  steps : List ScalarInlineStep

def inlineValue (call : ScalarCall) (s : Inlining) (value : InlineValue) :
    CompileOutcome Inlining :=
  let origin := ValueOrigin.node call.frameStateNode (s.steps.length + 1)
  match value with
  | .argument index => do
    let v ← Outcome.expect call.arguments[index]?
    .ok { s with mapped := s.mapped ++ [v] }
  | .int32 value => do
    let (v, graph) ← s.graph.push origin (.int32 value)
    .ok { graph, mapped := s.mapped ++ [v], steps := s.steps ++ [⟨v, none⟩] }
  | .bool value => do
    let (v, graph) ← s.graph.push origin (.bool value)
    .ok { graph, mapped := s.mapped ++ [v], steps := s.steps ++ [⟨v, none⟩] }
  | .binary op lhs rhs pc stack => do
    let stack ← stack.mapM fun id => Outcome.expect s.mapped[id]?
    let lhs ← Outcome.expect s.mapped[lhs]?
    let rhs ← Outcome.expect s.mapped[rhs]?
    let (v, graph) ← s.graph.push origin (.binary .int32 op lhs rhs)
    let frame : ScalarFrameState := {
      pc, arguments := call.arguments, locals := [], stack, parent := some call.frameStateNode }
    .ok { graph, mapped := s.mapped ++ [v], steps := s.steps ++ [⟨v, some frame⟩] }

/-- Whether a call target is a frame value, so that its identity can be guarded. -/
def ScalarValue.isFrameValue : ScalarValue → Bool
  | .input _ slot | .phi _ slot _ | .frameRead _ slot =>
    match slot with
    | .argument _ | .loc _ => true
    | .stack _ => false
  | _ => false

/-- The plan of a callee at a call site that admits inlining. -/
def inlinePlan (g : ScalarGraph) (call : ScalarCall) (callee : InlineCallee) :
    Option InlinePlan :=
  if (g.value? call.target).any ScalarValue.isFrameValue ∧ call.receiver = none ∧
      call.arguments.length = callee.argumentCount then
    callee.plan fun index =>
      match call.arguments[index]?.bind g.value? with
      | some (.bool value) => some value
      | _ => none
  else none

/-- `expand_inline`. -/
def expandInline (g : ScalarGraph) (call : ScalarCall) (callee : InlineCallee) :
    CompileOutcome (Option ScalarInlineRegion × ScalarGraph) :=
  match inlinePlan g call callee with
  | none => .ok (none, g)
  | some plan =>
    let entries := (plan.values.map (InlineValue.stateEntries call.arguments.length)).sum
    if g.valueLimit < g.definitions.length + plan.values.length ∨
        g.nodeCount * 64 < g.stateEntries + entries then .ok (none, g)
    else do
      let s ← plan.values.foldlM (inlineValue call) { graph := g, mapped := [], steps := [] }
      let result ← Outcome.expect s.mapped[plan.result]?
      .ok (some { steps := s.steps, result },
        { s.graph with stateEntries := s.graph.stateEntries + entries })

end QuickJit
