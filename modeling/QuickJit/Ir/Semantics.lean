import QuickJit.Ir.Translate

/-
  What a translated function means: its bytecode and its scalar graph, run along
  one path.

  The bytecode is a stack machine over arguments, locals and the operand stack
  (`Machine`). Loads, stores, shuffles and constants have their meaning; the
  results of everything else, and the slots a node that runs other code leaves
  behind, come from an `Event`, one for each time a node is executed. The graph
  is evaluated along the same path (`Config.env`): a phi is selected by the
  predecessor, a frame read is the slot right after its node, arithmetic is
  applied to the values of its operands, the other values of a node are its
  results.

  `Rules` restrict the events and edges of a run and carry a world of their own,
  so that one definition of a run (`Run`) serves checks that exit, branches that
  follow a comparison, and heaps.
-/

namespace QuickJit

/-- The constants a set of JavaScript values has, and its arithmetic. -/
class Scalars (V : Type) where
  int : Int → V
  bool : Bool → V
  arith : ScalarBinaryOp → ScalarNumericMode → V → V → V

/-! ## The bytecode machine -/

structure Machine (V : Type) where
  frame : FrameSlot → V
  stack : List V

/-- What one execution of a node produces: its results, and the slots after it
where it may change any of them. -/
structure Event (V : Type) where
  results : Nat → V
  slots : FrameSlot → V

/-- What an opcode does to slots and stack. -/
inductive Meaning where
  | load
  | loadPair
  | store
  | keep
  | bump
  | overwrite
  | constant
  | bool (value : Bool)
  | shuffle (order : List Nat)
  | receiver
  | post
  | compute
  deriving DecidableEq, Repr

/-- The meaning of an opcode. A shuffle lists what it pushes by position among
the values it pops, deepest first. -/
def meaning : OpName → Meaning
  | .getArg | .getArg0 | .getArg1 | .getArg2 | .getArg3 | .getLoc | .getLoc8 | .getLoc0 | .getLoc1
  | .getLoc2 | .getLoc3 | .getLocCheck => .load
  | .getLoc0Loc1 => .loadPair
  | .putArg | .putArg0 | .putArg1 | .putArg2 | .putArg3 | .putLoc | .putLoc8 | .putLoc0 | .putLoc1
  | .putLoc2 | .putLoc3 | .putLocCheck | .putLocCheckInit => .store
  | .setArg | .setArg0 | .setArg1 | .setArg2 | .setArg3 | .setLoc | .setLoc8 | .setLoc0 | .setLoc1
  | .setLoc2 | .setLoc3 => .keep
  | .incLoc | .decLoc => .bump
  | .addLoc | .setLocUninitialized => .overwrite
  | .pushMinus1 | .push0 | .push1 | .push2 | .push3 | .push4 | .push5 | .push6 | .push7 | .pushI8
  | .pushI16 | .pushI32 => .constant
  | .pushTrue => .bool true
  | .pushFalse => .bool false
  | .drop => .shuffle []
  | .nip => .shuffle [1]
  | .nip1 => .shuffle [1, 2]
  | .dup => .shuffle [0, 0]
  | .dup1 => .shuffle [0, 0, 1]
  | .dup2 => .shuffle [0, 1, 0, 1]
  | .dup3 => .shuffle [0, 1, 2, 0, 1, 2]
  | .insert2 => .shuffle [1, 0, 1]
  | .insert3 => .shuffle [2, 0, 1, 2]
  | .insert4 => .shuffle [3, 0, 1, 2, 3]
  | .perm3 => .shuffle [1, 0, 2]
  | .perm4 => .shuffle [2, 0, 1, 3]
  | .perm5 => .shuffle [3, 0, 1, 2, 4]
  | .swap => .shuffle [1, 0]
  | .swap2 => .shuffle [2, 3, 0, 1]
  | .rot3l => .shuffle [1, 2, 0]
  | .rot3r => .shuffle [2, 0, 1]
  | .rot4l => .shuffle [1, 2, 3, 0]
  | .rot5l => .shuffle [1, 2, 3, 4, 0]
  | .getField2 => .receiver
  -- the operand is a number, so ToNumeric leaves it as it is
  | .postInc | .postDec => .post
  | _ => .compute

/-- The slot an opcode names, in its name or in its operand. -/
def operandSlot (name : OpName) (bytes : List UInt8) : FrameSlot :=
  match name with
  | .getArg | .putArg | .setArg => .argument (wordAt bytes 1)
  | .getArg0 | .putArg0 | .setArg0 => .argument 0
  | .getArg1 | .putArg1 | .setArg1 => .argument 1
  | .getArg2 | .putArg2 | .setArg2 => .argument 2
  | .getArg3 | .putArg3 | .setArg3 => .argument 3
  | .getLoc0 | .putLoc0 | .setLoc0 => .loc 0
  | .getLoc1 | .putLoc1 | .setLoc1 => .loc 1
  | .getLoc2 | .putLoc2 | .setLoc2 => .loc 2
  | .getLoc3 | .putLoc3 | .setLoc3 => .loc 3
  | .getLoc8 | .putLoc8 | .setLoc8 | .incLoc | .decLoc | .addLoc => .loc (byteAt bytes 1)
  | _ => .loc (wordAt bytes 1)

/-- Nodes that may change any argument or local: those with the effect of a
call or a poll, and the accesses whose write has no slot of its own. -/
def OptimizedNode.mayChangeFrame (n : OptimizedNode) : Bool :=
  !n.eliminated && (n.effect = .reentrant || n.effect = .poll || n.effect = .frameWrite)

namespace Machine

variable {V : Type} [Scalars V]

/-- The values an operation pops, deepest first. -/
def popped (m : Machine V) (op : BytecodeOp) : List V := m.stack.drop (m.stack.length - op.pops)

/-- The values an operation pushes. -/
def pushed (m : Machine V) (n : OptimizedNode) (op : BytecodeOp) (e : Event V) : List V :=
  match meaning op.name with
  | .load => [m.frame (operandSlot op.name n.bytes)]
  | .loadPair => [m.frame (.loc 0), m.frame (.loc 1)]
  | .store | .bump | .overwrite => []
  | .keep => m.stack.getLast?.toList
  | .constant => (integerConstant op.name n.bytes).toList.map Scalars.int
  | .bool value => [Scalars.bool value]
  | .shuffle order => order.filterMap fun k => (m.popped op)[k]?
  | .receiver | .post => m.stack.getLast?.toList ++ [e.results 0]
  | .compute => (List.range op.pushes).map e.results

/-- The slots after an operation. -/
def frameAfter (m : Machine V) (n : OptimizedNode) (op : BytecodeOp) (e : Event V) :
    FrameSlot → V :=
  let slot := operandSlot op.name n.bytes
  match meaning op.name with
  | .store | .keep =>
    match m.stack.getLast? with
    | some v => Function.update m.frame slot v
    | none => m.frame
  | .bump => Function.update m.frame slot (e.results 0)
  | .overwrite => Function.update m.frame slot (e.slots slot)
  | _ => if n.mayChangeFrame then e.slots else m.frame

/-- The machine after a node. A guard has no operation; at a loop header it
polls. -/
def after (m : Machine V) (n : OptimizedNode) (e : Event V) : Machine V :=
  match n.op with
  | some op => {
      frame := m.frameAfter n op e
      stack := m.stack.take (m.stack.length - op.pops) ++ m.pushed n op e }
  | none => if n.isPoll then { m with frame := e.slots } else m

end Machine

/-! ## The scalar graph -/

section Graph

variable {V : Type} [Scalars V]

/-- The value of a definition that a node computes. Constants, reads of the frame
and arithmetic are evaluated from the graph, where arithmetic has the values of
its operands; what else a node computes is up to its event. -/
def ScalarValue.result (value : ScalarValue) (output : Nat) (env : Nat → Option V) (m : Machine V)
    (e : Event V) : Option V :=
  match value with
  | .int32 c => some (Scalars.int c)
  | .bool b => some (Scalars.bool b)
  | .frameRead _ slot => some (m.frame slot)
  | .binary mode op lhs rhs => do some (Scalars.arith op mode (← env lhs) (← env rhs))
  | _ => some (e.results output)

/-- The value of a definition at the entry of its block. -/
def ScalarValue.entering (value : ScalarValue) (env : Nat → Option V) (predecessor : Option Nat)
    (m : Machine V) : Option V :=
  match value with
  | .phi _ _ inputs =>
    (inputs.find? fun i => i.predecessor = predecessor).bind fun i => env i.value
  | .input _ slot => if predecessor = none then some (m.frame slot) else none
  | _ => none

namespace ScalarGraph

/-- The values after node `id`, where `m` is the machine after it. -/
def envAfter (g : ScalarGraph) (env : Nat → Option V) (id : Nat) (m : Machine V) (e : Event V) :
    Nat → Option V := fun v =>
  match g.definitions[v]? with
  | some ⟨value, .node node output⟩ =>
    if node = id then value.result output env m e else env v
  | _ => env v

/-- The values on entering block `pc`; all phis at once. -/
def envEnter (g : ScalarGraph) (env : Nat → Option V) (predecessor : Option Nat) (pc : Nat)
    (m : Machine V) : Nat → Option V := fun v =>
  match g.definitions[v]? with
  | some ⟨value, .block pc'⟩ => if pc' = pc then value.entering env predecessor m else env v
  | _ => env v

/-- The values before the first block: the inputs of a loop at pc 0. -/
def startEnv (g : ScalarGraph) (frame : FrameSlot → V) : Nat → Option V := fun v =>
  match g.definitions[v]? with
  | some ⟨.input _ slot, .entry⟩ => some (frame slot)
  | _ => none

end ScalarGraph

end Graph

/-! ## Runs -/

/-- A point of a run: the block, its nodes still to execute, and the values. -/
structure Config (V : Type) where
  block : OptimizedBlock
  rest : List OptimizedNode
  machine : Machine V
  env : Nat → Option V

namespace Config

variable {V : Type} [Scalars V]

/-- Before the first node of the first block. -/
def start (g : ScalarGraph) (b : OptimizedBlock) (frame : FrameSlot → V) : Config V where
  block := b
  rest := b.nodes
  machine := ⟨frame, []⟩
  env := g.envEnter (g.startEnv frame) none b.startPc ⟨frame, []⟩

/-- After node `n`, with `rest` left. -/
def after (c : Config V) (g : ScalarGraph) (n : OptimizedNode) (rest : List OptimizedNode)
    (e : Event V) : Config V where
  block := c.block
  rest := rest
  machine := c.machine.after n e
  env := g.envAfter c.env n.id (c.machine.after n e) e

/-- At the entry of block `b`. -/
def enter (c : Config V) (g : ScalarGraph) (b : OptimizedBlock) : Config V where
  block := b
  rest := b.nodes
  machine := c.machine
  env := g.envEnter c.env (some c.block.startPc) b.startPc c.machine

end Config

/-- Which events and edges a run may take, and what becomes of its world. -/
structure Rules (V W : Type) where
  node : Config V → W → OptimizedNode → Event V → W → Prop
  edge : Config V → W → OptimizedBlock → W → Prop

/-- The points that runs reach. -/
inductive Run {V W : Type} [Scalars V] (ir : OptimizedIr) (rules : Rules V W)
    (frame : FrameSlot → V) (world : W) : Config V → W → Prop
  | start {b} : ir.block? 0 = some b → Run ir rules frame world (.start ir.graph b frame) world
  | node {c w n rest e w'} : Run ir rules frame world c w → c.rest = n :: rest →
      rules.node c w n e w' → Run ir rules frame world (c.after ir.graph n rest e) w'
  | edge {c w pc b w'} : Run ir rules frame world c w → c.rest = [] →
      pc ∈ c.block.successors → ir.block? pc = some b → rules.edge c w b w' →
      Run ir rules frame world (c.enter ir.graph b) w'

end QuickJit
