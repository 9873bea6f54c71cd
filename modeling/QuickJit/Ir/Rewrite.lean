import QuickJit.Ir.Graph

/-
  Building the scalar graph: the body of `ScalarGraph::rewrite`.

  Every block gets one input value for each frame slot and each stack slot
  before any body is processed. The nodes of a block are then run on values
  (`rewriteNode`): a frame that binds each slot to its current value, and a
  stack of values. Last, the inputs of blocks with predecessors become phis of
  what the predecessors leave (`linkPhis`).

  Correspondence (Rust ↔ Lean), inside the node loop of `rewrite`:
    the `heap_access` branch            ↔ `heapResult`
    the call branch                     ↔ `callResult`
    the `match node.kind()` of `result` ↔ `nodeResult`
    `definitions`                       ↔ `defineFrame`
    the `for output in 0..node.pushes()` loop ↔ `nodeOutput`
-/

namespace QuickJit

/-- `JS_ATOM_length`. -/
def jsAtomLength : Nat := 51

/-- How the pass computes the result of an opcode: the branches of the source's
chain of tests, which are disjoint. -/
inductive ScalarOp where
  | heap
  | call
  | bool (value : Bool)
  | constant
  | load
  | setSlot
  | update (delta : Int)
  | bitwise (op : ScalarBitwiseOp)
  | compare (op : ScalarCompareOp)
  | binary (op : ScalarBinaryOp)
  | other
  deriving DecidableEq, Repr

def scalarOp : OpName → ScalarOp
  | .getField | .getField2 | .getLength | .putField | .getArrayEl | .putArrayEl => .heap
  | .call | .call0 | .call1 | .call2 | .call3 | .callMethod => .call
  | .pushTrue => .bool true
  | .pushFalse => .bool false
  | .pushMinus1 | .push0 | .push1 | .push2 | .push3 | .push4 | .push5 | .push6 | .push7 | .pushI8
  | .pushI16 | .pushI32 => .constant
  | .getArg | .getArg0 | .getArg1 | .getArg2 | .getArg3 | .getLoc | .getLoc8 | .getLoc0 | .getLoc1
  | .getLoc2 | .getLoc3 | .getLocCheck => .load
  | .setArg | .setArg0 | .setArg1 | .setArg2 | .setArg3 | .setLoc | .setLoc8 | .setLoc0 | .setLoc1
  | .setLoc2 | .setLoc3 => .setSlot
  | .inc | .postInc | .incLoc => .update 1
  | .dec | .postDec | .decLoc => .update (-1)
  | .or => .bitwise .or
  | .and => .bitwise .and
  | .xor => .bitwise .xor
  | .shl => .bitwise .shl
  | .sar => .bitwise .sar
  | .shr => .bitwise .shr
  | .lt => .compare .lessThan
  | .lte => .compare .lessEqual
  | .gt => .compare .greaterThan
  | .gte => .compare .greaterEqual
  | .add => .binary .add
  | .sub => .binary .sub
  | .mul => .binary .mul
  | .div => .binary .div
  | _ => .other

/-- `heap_access`. -/
def isHeapAccess (n : OptimizedNode) : Bool := n.opcode?.any fun name => scalarOp name = .heap

/-! ## What stays fixed -/

structure RewriteContext where
  slots : List FrameSlot
  shape : OptimizedFrameShape
  modes : OrdMap Nat ScalarNumericMode
  inlineCallees : OrdMap Nat InlineCallee

def loadedSlots (n : OptimizedNode) : CompileOutcome (List FrameSlot) :=
  match n.opcode? with
  | some name =>
    if isPureLoad name ∨ name = .getLocCheck then do
      let slot ← Outcome.okOr .invalidArtifact (loadSlot name n.bytes)
      .ok [slot]
    else if name = .getLoc0Loc1 then .ok [.loc 0, .loc 1]
    else .ok []
  | none => .ok []

/-- The slots a node reads or writes by name. -/
def mentionedSlots (n : OptimizedNode) : CompileOutcome (List FrameSlot) := do
  let loaded ← loadedSlots n
  .ok (loaded ++ (frameWriteSlot n).toList)

/-- The frame slots the graph tracks, in order. -/
def trackedSlots (shape : OptimizedFrameShape) (nodes : List OptimizedNode) :
    CompileOutcome (List FrameSlot) := do
  let mentioned ← nodes.mapM mentionedSlots
  .ok (OrdSet.ofList ((List.range shape.arguments).map .argument ++
    (List.range shape.locals).map .loc ++ mentioned.flatten)).elems

/-- The pcs of the blocks that continue at `pc`, once per edge. -/
def predecessorsOf (blocks : List OptimizedBlock) (pc : Nat) : List Nat :=
  blocks.flatMap fun b => (b.successors.filter (· = pc)).map fun _ => b.startPc

/-! ## One node -/

/-- The variables of the node loop. -/
structure Rewriting where
  graph : ScalarGraph
  frame : FrameSlot → Option Nat
  stack : List Nat
  expressions : List ((ScalarBinaryOp × ScalarNumericMode × Nat × Nat × ValueRepresentation) ×
    (Nat × Nat))
  constants : List (Int × Nat)
  eliminated : Nat

/-- `graph.push` for a result of node `id`. -/
def Rewriting.push (r : Rewriting) (id output : Nat) (value : ScalarValue) :
    CompileOutcome (Nat × Rewriting) := do
  let (v, graph) ← r.graph.push (.node id output) value
  .ok (v, { r with graph })

/-- `capture_frame`. -/
def captureFrame (ctx : RewriteContext) (id pc : Nat) (frame : FrameSlot → Option Nat)
    (stack : List Nat) (entries : Nat) (g : ScalarGraph) : CompileOutcome ScalarGraph :=
  let total := g.stateEntries + entries + stack.length
  if g.nodeCount * 64 < total then Outcome.fail .resourceLimit
  else do
    let arguments ← (List.range ctx.shape.arguments).mapM fun i =>
      Outcome.expect (frame (.argument i))
    let locals ← (List.range ctx.shape.locals).mapM fun i => Outcome.expect (frame (.loc i))
    .ok { g with
      stateEntries := total
      frameStates := Function.update g.frameStates id
        (some { pc, arguments, locals, stack, parent := none }) }

/-- Whether the frame before a node is kept. -/
def capturesFrame (n : OptimizedNode) : Bool :=
  (n.deoptGuard.isSome || isHeapAccess n || n.effect = .reentrant || n.effect = .poll) &&
    match n.kind with
    | .reuse _ => false
    | _ => true

/-- The values popped by a node, deepest first. -/
def Rewriting.popped (r : Rewriting) (n : OptimizedNode) : List Nat :=
  r.stack.drop (r.stack.length - n.pops)

/-- The pops and pushes a heap access must have. -/
def heapArity : OpName → Nat × Nat
  | .getField2 => (1, 2)
  | .putField => (2, 0)
  | .getArrayEl => (2, 1)
  | .putArrayEl => (3, 0)
  | _ => (1, 1)

def accessedAtom (name : OpName) (bytes : List UInt8) : CompileOutcome Nat :=
  if name = .getLength then .ok jsAtomLength
  else if 5 ≤ bytes.length then .ok (dwordAt bytes 1)
  else Outcome.fail .invalidArtifact

def setHeapOperation (id : Nat) (operation : ScalarHeapOperation) (r : Rewriting) : Rewriting :=
  { r with graph := { r.graph with
    heapOperations := Function.update r.graph.heapOperations id (some operation) } }

/-- A property or element access; the result of a load. -/
def heapResult (n : OptimizedNode) (name : OpName) (r : Rewriting) :
    CompileOutcome (Option Nat × Rewriting) :=
  if (n.pops, n.pushes) ≠ heapArity name then Outcome.fail .invalidArtifact
  else
    match name, r.popped n with
    | .putField, [base, value] => do
      let atom ← accessedAtom name n.bytes
      .ok (none, setHeapOperation n.id (.putProperty base atom value n.id) r)
    | .getArrayEl, [base, index] => do
      let (v, r) ← r.push n.id 0 (.getElement base index n.id)
      .ok (some v, setHeapOperation n.id (.getElement base index v n.id) r)
    | .putArrayEl, [base, index, value] =>
      .ok (none, setHeapOperation n.id (.putElement base index value n.id) r)
    | _, [base] => do
      let atom ← accessedAtom name n.bytes
      let (v, r) ← r.push n.id 0 (.getProperty base atom n.id)
      .ok (some v, setHeapOperation n.id (.getProperty base atom v n.id) r)
    | _, _ => Outcome.panicked

/-- The operands of a call: receiver, target and arguments. -/
def callOperands (name : OpName) : List Nat → Option (Option Nat × Nat × List Nat)
  | receiver :: target :: arguments =>
    if name = .callMethod then some (some receiver, target, arguments)
    else some (none, receiver, target :: arguments)
  | [target] => if name = .callMethod then none else some (none, target, [])
  | [] => none

/-- The inlining of a call, if its site has a callee. -/
def inlineCall (ctx : RewriteContext) (n : OptimizedNode) (call : ScalarCall) (g : ScalarGraph) :
    CompileOutcome (Option ScalarInlineRegion × ScalarGraph) :=
  match ctx.inlineCallees.get? n.pc with
  | some callee => expandInline g call callee
  | none => .ok (none, g)

/-- A call. An inlined one has no effect any more. -/
def callResult (ctx : RewriteContext) (n : OptimizedNode) (name : OpName) (r : Rewriting) :
    CompileOutcome (Option Nat × OptimizedNode × Rewriting) :=
  match callOperands name (r.popped n) with
  | none => Outcome.fail .invalidArtifact
  | some (receiver, target, arguments) =>
    if n.pushes ≠ 1 ∨ n.effect ≠ .reentrant ∨ (r.graph.frameStates n.id).isNone then
      Outcome.fail .invalidArtifact
    else do
      let call : ScalarCall := { target, receiver, arguments, frameStateNode := n.id, inline := none }
      let (inline, graph) ← inlineCall ctx n call r.graph
      let (v, r) ← { r with graph }.push n.id 0 (.call { call with inline })
      .ok (some v, if inline.isSome then { n with effect := .control } else n, r)

/-- An integer constant, shared inside a block. -/
def constantResult (n : OptimizedNode) (name : OpName) (r : Rewriting) :
    CompileOutcome (Option Nat × Rewriting) :=
  match integerConstant name n.bytes with
  | none => .ok (none, r)
  | some c =>
    match r.constants.find? fun e => e.1 = c with
    | some (_, v) => .ok (some v, r)
    | none => do
      let (v, r) ← r.push n.id 0 (.int32 c)
      .ok (some v, { r with constants := (c, v) :: r.constants })

/-- The input of an increment or decrement. -/
def updateInput (n : OptimizedNode) (name : OpName) (r : Rewriting) : CompileOutcome Nat :=
  if name = .incLoc ∨ name = .decLoc then
    if n.bytes.length < 2 then Outcome.fail .invalidArtifact
    else Outcome.okOr .invalidArtifact (r.frame (.loc (byteAt n.bytes 1)))
  else Outcome.okOr .invalidArtifact r.stack.getLast?

def binaryOperands (n : OptimizedNode) (r : Rewriting) : CompileOutcome (Nat × Nat) :=
  match r.popped n with
  | [lhs, rhs] => if n.pushes ≠ 1 then Outcome.fail .invalidArtifact else .ok (lhs, rhs)
  | _ => Outcome.fail .invalidArtifact

/-- Arithmetic: the value of an equal operation of this block, or a new one. -/
def binaryResult (ctx : RewriteContext) (n : OptimizedNode) (op : ScalarBinaryOp) (r : Rewriting) :
    CompileOutcome (Option Nat × OptimizedNode × Rewriting) := do
  let (lhs, rhs) ← binaryOperands n r
  let mode := modeAt ctx.modes n.pc
  let key := (op, mode, lhs, rhs, n.representation)
  match r.expressions.find? fun e => e.1 = key with
  | some (_, v, source) =>
    .ok (some v, { n with kind := .reuse source }, { r with eliminated := r.eliminated + 1 })
  | none => do
    let (v, r) ← r.push n.id 0 (.binary mode op lhs rhs)
    .ok (some v, n, { r with expressions := (key, v, n.id) :: r.expressions })

/-- The result value of a node, the node as the pass leaves it, and the new
state. -/
def nodeResult (ctx : RewriteContext) (n : OptimizedNode) (r : Rewriting) :
    CompileOutcome (Option Nat × OptimizedNode × Rewriting) :=
  match n.kind with
  | .guardNumeric _ _ => .ok (none, n, r)
  | .reuse source => do
    let v ← Outcome.okOr .invalidArtifact (r.graph.nodeValues source)
    .ok (some v, n, r)
  | .bytecode name =>
    match scalarOp name with
    | .heap => do
      let (result, r) ← heapResult n name r
      .ok (result, n, r)
    | .call => callResult ctx n name r
    | .bool value => do
      let (v, r) ← r.push n.id 0 (.bool value)
      .ok (some v, n, r)
    | .constant => do
      let (result, r) ← constantResult n name r
      .ok (result, n, r)
    | .load => do
      let slot ← Outcome.okOr .invalidArtifact (loadSlot name n.bytes)
      let v ← Outcome.okOr .invalidArtifact (r.frame slot)
      .ok (some v, n, r)
    | .setSlot => .ok (r.stack.getLast?, n, r)
    | .update delta => do
      let input ← updateInput n name r
      let (v, r) ← r.push n.id 0 (.update (modeAt ctx.modes n.pc) input delta)
      .ok (some v, n, r)
    | .bitwise op => do
      let (lhs, rhs) ← binaryOperands n r
      let (v, r) ← r.push n.id 0 (.bitwise op lhs rhs)
      .ok (some v, n, r)
    | .compare op => do
      let (lhs, rhs) ← binaryOperands n r
      let (v, r) ← r.push n.id 0 (.compare op lhs rhs)
      .ok (some v, n, r)
    | .binary op => binaryResult ctx n op r
    | .other => .ok (none, n, r)

/-- The values a stack permutation pushes. -/
def shuffledValues (n : OptimizedNode) (r : Rewriting) : CompileOutcome (Option (List Nat)) :=
  match n.opcode?.bind permutation with
  | none => .ok none
  | some (pops, order) =>
    if pops ≠ n.pops ∨ order.length ≠ n.pushes then Outcome.fail .invalidArtifact
    else do
      let values ← order.mapM fun k => Outcome.expect (r.popped n)[k]?
      .ok (some values)

/-- Every tracked slot is read again after a node that may have changed it. -/
def readFrame (ctx : RewriteContext) (n : OptimizedNode) (r : Rewriting) :
    CompileOutcome (List (FrameSlot × Nat) × Rewriting) := do
  let (bindings, graph) ← ScalarGraph.allocate (.node n.id 0) (.frameRead n.id) r.graph ctx.slots
  .ok (bindings, { r with graph, frame := bindingOf bindings })

/-- The value a node that writes one slot gives it. -/
def writtenValue (n : OptimizedNode) (slot : FrameSlot) (result : Option Nat) (r : Rewriting) :
    CompileOutcome (Nat × Rewriting) :=
  if n.opcode? = some .incLoc ∨ n.opcode? = some .decLoc then do
    let v ← Outcome.okOr .invalidArtifact result
    .ok (v, r)
  else if n.opcode?.any isFrameSlotStore then do
    let v ← Outcome.okOr .invalidArtifact r.stack.getLast?
    .ok (v, r)
  else r.push n.id 0 (.frameRead n.id slot)

def defineFrame (ctx : RewriteContext) (n : OptimizedNode) (result : Option Nat) (r : Rewriting) :
    CompileOutcome (List (FrameSlot × Nat) × Rewriting) :=
  if n.effect = .pure then .ok ([], r)
  else
    let r := { r with expressions := [] }
    if n.effect = .frameWrite then
      match frameWriteSlot n with
      | some slot => do
        let (v, r) ← writtenValue n slot result r
        .ok ([(slot, v)], { r with frame := Function.update r.frame slot (some v) })
      | none => readFrame ctx n r
    else if n.effect = .reentrant ∨ n.effect = .poll then readFrame ctx n r
    else .ok ([], r)

/-- One pushed value. -/
def nodeOutput (n : OptimizedNode) (result : Option Nat) (shuffled : Option (List Nat))
    (r : Rewriting) (output : Nat) : CompileOutcome (Nat × Rewriting) :=
  if n.opcode? = some .getField2 then
    if output = 0 then do
      let operation ← Outcome.okOr .invalidArtifact (r.graph.heapOperations n.id)
      .ok (operation.location.base, r)
    else do
      let v ← Outcome.okOr .invalidArtifact result
      .ok (v, r)
  else if n.opcode? = some .postInc ∨ n.opcode? = some .postDec then do
    let v ← Outcome.okOr .invalidArtifact result
    match r.graph.value? v with
    | some (.update _ input _) => .ok (if output = 0 then input else v, r)
    | _ => Outcome.fail .invalidArtifact
  else
    match shuffled with
    | some values => do
      let v ← Outcome.expect values[output]?
      .ok (v, r)
    | none =>
      if n.opcode? = some .getLoc0Loc1 then do
        let v ← Outcome.expect (r.frame (.loc output))
        .ok (v, r)
      else
        match output, result with
        | 0, some v => .ok (v, r)
        | _, _ => r.push n.id output .opaqueValue

/-- `semantic_heap_effect`. -/
def semanticHeapEffect (n : OptimizedNode) : ScalarHeapEffect :=
  if isHeapAccess n then .reentrant
  else
    match n.kind with
    | .guardNumeric _ true => .safepoint
    | .guardNumeric _ false | .reuse _ => .pure
    | .bytecode name =>
      if name = .returnOp ∨ name = .returnUndef then .exit
      else
        match n.effect with
        | .poll => .safepoint
        | .reentrant => .reentrant
        | .frameWrite =>
          match frameWriteSlot n with
          | some slot => .frameWrite slot
          | none => .reentrant
        | .pure =>
          if name ∈ [OpName.mod, .plus, .neg, .not] then .reentrant else .pure
        | .control => if name = .eq ∨ name = .neq then .reentrant else .pure

/-- Whether a result is an increment or decrement, which a node keeps as its
value even when it pushes another one. -/
def isUpdate (g : ScalarGraph) (v : Nat) : Bool :=
  match g.value? v with
  | some (.update _ _ _) => true
  | _ => false

/-- The tables a node fills: its heap effect, definitions, outputs and value. -/
def recordNode (n : OptimizedNode) (definitions : List (FrameSlot × Nat)) (outputs : List Nat)
    (result : Option Nat) (g : ScalarGraph) : ScalarGraph :=
  let value :=
    if result.any (isUpdate g) then result
    else if n.pushes = 1 then outputs.head?
    else g.nodeValues n.id
  { g with
    heapEffects := Function.update g.heapEffects n.id (semanticHeapEffect n)
    frameDefinitions := Function.update g.frameDefinitions n.id definitions
    nodeOutputs := Function.update g.nodeOutputs n.id outputs
    nodeValues := Function.update g.nodeValues n.id value }

/-- The frame before a node, if it is kept. -/
def captureNode (ctx : RewriteContext) (n : OptimizedNode) (r : Rewriting) :
    CompileOutcome Rewriting :=
  if capturesFrame n then do
    let graph ← captureFrame ctx n.id n.pc r.frame r.stack ctx.slots.length r.graph
    .ok { r with graph }
  else .ok r

/-- A node that is not eliminated. -/
def rewriteLive (ctx : RewriteContext) (n : OptimizedNode) (r : Rewriting) :
    CompileOutcome (OptimizedNode × Rewriting) := do
  let r ← captureNode ctx n r
  let (result, n, r) ← nodeResult ctx n r
  let shuffled ← shuffledValues n r
  let (definitions, r) ← defineFrame ctx n result r
  let (outputs, r) ← collectM (nodeOutput n result shuffled) r (List.range n.pushes)
  .ok (n, { r with
    graph := recordNode n definitions outputs result r.graph
    stack := r.stack.take (r.stack.length - n.pops) ++ outputs })

def rewriteEliminated (n : OptimizedNode) (r : Rewriting) :
    CompileOutcome (OptimizedNode × Rewriting) := do
  let (outputs, r) ← collectM (fun r k => r.push n.id k .opaqueValue) r (List.range n.pushes)
  .ok (n, { r with
    graph := { r.graph with heapEffects := Function.update r.graph.heapEffects n.id .pure }
    stack := r.stack.take (r.stack.length - n.pops) ++ outputs })

/-- One turn of the node loop. -/
def rewriteNode (ctx : RewriteContext) (r : Rewriting) (n : OptimizedNode) :
    CompileOutcome (OptimizedNode × Rewriting) :=
  if r.stack.length < n.pops then Outcome.fail .invalidArtifact
  else if n.eliminated then rewriteEliminated n r
  else rewriteLive ctx n r

/-! ## Blocks -/

/-- The inputs of one block: its frame slots and its stack. -/
def blockSlots (slots : List FrameSlot) (b : OptimizedBlock) : List FrameSlot :=
  slots ++ (List.range b.stackDepth).map .stack

def allocateInputs (slots : List FrameSlot) (g : ScalarGraph) (b : OptimizedBlock) :
    CompileOutcome ScalarGraph := do
  let (bindings, g) ← g.allocate (.block b.startPc) (.input b.startPc) (blockSlots slots b)
  .ok { g with blockInputs := g.blockInputs.insert b.startPc bindings }

/-- The variables of the block loop. -/
structure RewritingBlocks where
  graph : ScalarGraph
  /-- What each block leaves in its frame and on its stack. -/
  exits : OrdMap Nat ((FrameSlot → Option Nat) × List Nat)
  eliminated : Nat

/-- The state a block is started with. -/
def blockEntry (s : RewritingBlocks) (b : OptimizedBlock) : Rewriting :=
  let inputs := s.graph.inputsForBlock b.startPc
  { graph := s.graph
    frame := fun slot =>
      match slot with
      | .stack _ => none
      | slot => bindingOf inputs slot
    stack := inputs.filterMap fun (slot, v) =>
      match slot with
      | .stack _ => some v
      | _ => none
    expressions := []
    constants := []
    eliminated := s.eliminated }

/-- One turn of the block loop. -/
def rewriteBlock (ctx : RewriteContext) (s : RewritingBlocks) (b : OptimizedBlock) :
    CompileOutcome (OptimizedBlock × RewritingBlocks) := do
  let (nodes, r) ← collectM (rewriteNode ctx) (blockEntry s b) b.nodes
  .ok ({ b with nodes },
    { graph := r.graph, exits := s.exits.insert b.startPc (r.frame, r.stack),
      eliminated := r.eliminated })

/-! ## Phis -/

/-- What a predecessor leaves in a slot. -/
def exitValue (exits : OrdMap Nat ((FrameSlot → Option Nat) × List Nat)) (slot : FrameSlot)
    (predecessor : Nat) : CompileOutcome ScalarPhiInput := do
  let (frame, stack) ← Outcome.okOr .invalidArtifact (exits.get? predecessor)
  let value ← Outcome.okOr .invalidArtifact
    (match slot with
    | .stack index => stack[index]?
    | slot => frame slot)
  .ok { predecessor := some predecessor, value }

/-- The initial input of a slot of a loop at pc 0. -/
def entryInput (pc : Nat) (slot : FrameSlot) (g : ScalarGraph) :
    CompileOutcome (List ScalarPhiInput × ScalarGraph) :=
  if pc = 0 then do
    let (v, g) ← g.push .entry (.input pc slot)
    .ok ([{ predecessor := none, value := v }], g)
  else .ok ([], g)

/-- Turn one input of block `pc` into a phi. -/
def linkPhi (nodeCount : Nat) (exits : OrdMap Nat ((FrameSlot → Option Nat) × List Nat))
    (incoming : List Nat) (pc : Nat) (state : ScalarGraph × Nat) (binding : FrameSlot × Nat) :
    CompileOutcome (ScalarGraph × Nat) :=
  if incoming = [] then
    if pc ≠ 0 then Outcome.fail .invalidArtifact else .ok state
  else
    let edges := state.2 + incoming.length + (if pc = 0 then 1 else 0)
    if nodeCount * 32 < edges then Outcome.fail .resourceLimit
    else do
      let (first, g) ← entryInput pc binding.1 state.1
      let rest ← incoming.mapM (exitValue exits binding.1)
      .ok ({ g with
        definitions := g.definitions.modify binding.2 fun d =>
          { d with value := .phi pc binding.1 (first ++ rest) } }, edges)

def linkBlock (nodeCount : Nat) (blocks : List OptimizedBlock)
    (exits : OrdMap Nat ((FrameSlot → Option Nat) × List Nat)) (state : ScalarGraph × Nat)
    (entry : Nat × List (FrameSlot × Nat)) : CompileOutcome (ScalarGraph × Nat) :=
  entry.2.foldlM (linkPhi nodeCount exits (predecessorsOf blocks entry.1) entry.1) state

/-- The value an input of block 0 has on entry of the function. -/
def initialValue (g : ScalarGraph) (binding : FrameSlot × Nat) :
    CompileOutcome (FrameSlot × Nat) :=
  match binding.1, g.value? binding.2 with
  | .stack _, _ => Outcome.fail .invalidArtifact
  | slot, some (.phi _ _ inputs) => do
    let input ← Outcome.okOr .invalidArtifact (inputs.find? fun i => i.predecessor = none)
    .ok (slot, input.value)
  | slot, _ => .ok (slot, binding.2)

/-- The frame state of the entry guard. -/
def captureEntry (ctx : RewriteContext) (entry : OptimizedNode) (g : ScalarGraph) :
    CompileOutcome ScalarGraph := do
  let bindings ← (g.inputsForBlock 0).mapM (initialValue g)
  captureFrame ctx entry.id entry.pc (bindingOf bindings) [] bindings.length g

/-- The blocks and the graph of the pass before its last two steps. -/
structure BuiltGraph where
  blocks : List OptimizedBlock
  graph : ScalarGraph
  eliminated : Nat

/-- `ScalarGraph::rewrite` up to the specialization of updates. -/
def buildGraph (ctx : RewriteContext) (entry : OptimizedNode) (blocks : List OptimizedBlock) :
    CompileOutcome BuiltGraph := do
  let nodeCount := 1 + (blocks.map fun b => b.nodes.length).sum
  let g ← blocks.foldlM (allocateInputs ctx.slots) (ScalarGraph.initial nodeCount)
  let (rewritten, s) ← collectM (rewriteBlock ctx)
    { graph := g, exits := OrdMap.empty, eliminated := 0 } blocks
  let (g, _) ← s.graph.blockInputs.entries.foldlM (linkBlock nodeCount blocks s.exits) (s.graph, 0)
  let g ← captureEntry ctx entry g
  .ok { blocks := rewritten, graph := g, eliminated := s.eliminated }

end QuickJit
