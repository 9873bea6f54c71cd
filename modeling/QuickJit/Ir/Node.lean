import Mathlib
import QuickJit.Bytecode.Verify

/-
  Nodes and blocks of the optimizing tier (`ir/optimized.rs`).

  A function is translated to one node per instruction, grouped in the blocks
  of its control-flow graph. A node is classified by its opcode: the
  representation of its result, and an effect that says whether it may change
  argument and local slots. Nodes that can leave optimized code carry the guard
  whose map rebuilds the interpreter frame.

  `OptimizedNode.op` is a history variable: the operation the node was made
  from, which no pass changes or reads. Passes mark nodes eliminated or let
  them reuse the value of another node; `op` still says what the bytecode does
  there. A block holds its nodes; the source holds their ids, which are
  consecutive in the order of the blocks, with the entry guard first.

  Correspondence (Rust ↔ Lean):
    `name.starts_with("put_loc")` …   ↔ `OpName.isPutLoc` …
    `(u8, u16)` slot keys             ↔ `FrameSlot`, ordered by `FrameSlot.key`
    `opcode_name`                     ↔ `OptimizedNode.opcode?`
    `make_guard`, `identity_deopt_map` ↔ `identityDeoptMap`
-/

namespace QuickJit

/-- `compiler::CompileFailure`; building IR gives the first, third and last. -/
inductive CompileFailure where
  | unsupportedOpcode | tier1Rejected | resourceLimit | timedOut | cancelled | compilerPanicked
  | invalidArtifact
  deriving DecidableEq, Repr

abbrev CompileOutcome := Outcome CompileFailure

inductive ValueRepresentation where
  | tagged | int32 | float64 | effect
  deriving DecidableEq, Repr

inductive OptimizedEffect where
  | pure | frameWrite | control | poll | reentrant
  deriving DecidableEq, Repr

/-- The checked arithmetic contract selected by feedback. -/
inductive ScalarNumericMode where
  | number | int32 | float64
  deriving DecidableEq, Repr

/-! ## Frame slots -/

inductive FrameSlot where
  | argument (index : Nat)
  | loc (index : Nat)
  | stack (index : Nat)
  deriving DecidableEq, Repr

namespace FrameSlot

/-- The key a slot is ordered by: arguments, then locals, then the stack. -/
def key : FrameSlot → ℕ ×ₗ ℕ
  | .argument index => toLex (0, index)
  | .loc index => toLex (1, index)
  | .stack index => toLex (2, index)

theorem key_injective : Function.Injective key := by
  intro a b h
  cases a <;> cases b <;> simp_all [key]

instance : LinearOrder FrameSlot := LinearOrder.lift' key key_injective

end FrameSlot

/-! ## Nodes -/

inductive OptimizedNodeKind where
  | guardNumeric (guard : Nat) (midLoop : Bool)
  | bytecode (opcode : OpName)
  | reuse (source : Nat)
  deriving DecidableEq, Repr

/-- The operation a node was made from: a name and its stack effect. -/
structure BytecodeOp where
  name : OpName
  pops : Nat
  pushes : Nat
  deriving DecidableEq, Repr

structure OptimizedNode where
  id : Nat
  pc : Nat
  kind : OptimizedNodeKind
  representation : ValueRepresentation
  effect : OptimizedEffect
  eliminated : Bool
  bytes : List UInt8
  branchTarget : Option Nat
  pops : Nat
  pushes : Nat
  deoptGuard : Option Nat
  op : Option BytecodeOp
  deriving DecidableEq, Repr

structure OptimizedBlock where
  startPc : Nat
  stackDepth : Nat
  successors : List Nat
  loopHeader : Bool
  nodes : List OptimizedNode
  deriving DecidableEq, Repr

namespace OptimizedNode

/-- `opcode_name`. -/
def opcode? (n : OptimizedNode) : Option OpName :=
  match n.kind with
  | .bytecode opcode => some opcode
  | _ => none

/-- The guard of a loop header, where the poll runs. -/
def isPoll (n : OptimizedNode) : Bool :=
  match n.kind with
  | .guardNumeric _ midLoop => midLoop
  | _ => false

end OptimizedNode

/-! ## Operands -/

/-- `is_pure_load`. -/
def isPureLoad : OpName → Bool
  | .getArg | .getArg0 | .getArg1 | .getArg2 | .getArg3 | .getLoc | .getLoc8 | .getLoc0 | .getLoc1
  | .getLoc2 | .getLoc3 => true
  | _ => false

/-- `is_pure_binary`. -/
def isPureBinary : OpName → Bool
  | .add | .sub | .mul | .div => true
  | _ => false

/-- `indexed_node_operand`. -/
def indexedNodeOperand (name : OpName) (bytes : List UInt8) : Option Nat :=
  match name.lastDigit with
  | some 0 => some 0
  | some 1 => some 1
  | some 2 => some 2
  | some 3 => some 3
  | _ =>
    if bytes.length = 2 then some (byteAt bytes 1)
    else if 3 ≤ bytes.length then some (wordAt bytes 1)
    else none

/-- The slot a load reads: `u8::from(!name.starts_with("get_arg"))` and an index. -/
def loadSlot (name : OpName) (bytes : List UInt8) : Option FrameSlot :=
  (indexedNodeOperand name bytes).map fun index =>
    if name.isGetArg then .argument index else .loc index

/-- The slot an opcode that writes one slot writes. -/
def writtenSlot (name : OpName) (bytes : List UInt8) : Option FrameSlot :=
  if name.isPutLoc || name.isSetLoc || name ∈ [OpName.addLoc, .incLoc, .decLoc] then
    (indexedNodeOperand name bytes).map .loc
  else if name.isPutArg || name.isSetArg then (indexedNodeOperand name bytes).map .argument
  else none

/-- `frame_write_slot`. -/
def frameWriteSlot (n : OptimizedNode) : Option FrameSlot :=
  n.opcode?.bind fun name => writtenSlot name n.bytes

/-- `integer_constant`. -/
def integerConstant (name : OpName) (bytes : List UInt8) : Option Int :=
  match name with
  | .pushMinus1 => some (-1)
  | .push0 => some 0
  | .push1 => some 1
  | .push2 => some 2
  | .push3 => some 3
  | .push4 => some 4
  | .push5 => some 5
  | .push6 => some 6
  | .push7 => some 7
  | .pushI8 => if 2 ≤ bytes.length then some (signed 8 (byteAt bytes 1)) else none
  | .pushI16 => if 3 ≤ bytes.length then some (signed 16 (wordAt bytes 1)) else none
  | .pushI32 => if 5 ≤ bytes.length then some (signed 32 (dwordAt bytes 1)) else none
  | _ => none

/-! ## Classification -/

/-- `classify_optimized_opcode`; `none` is an opcode outside the vocabulary. -/
def classifyOptimizedOpcode : OpName → Option (ValueRepresentation × OptimizedEffect)
  | .pushI8 | .pushI16 | .pushI32 | .pushMinus1 | .push0 | .push1 | .push2 | .push3 | .push4
  | .push5 | .push6 | .push7 | .postInc | .postDec | .inc | .dec | .not | .shl | .sar | .shr
  | .and | .or | .xor => some (.int32, .pure)
  | .add | .sub | .mul | .div | .mod | .plus | .neg => some (.float64, .pure)
  | .getArg | .getArg0 | .getArg1 | .getArg2 | .getArg3 | .getLoc | .getLoc8 | .getLoc0 | .getLoc1
  | .getLoc2 | .getLoc3 | .getLocCheck | .getLoc0Loc1 | .undefined | .null | .pushTrue
  | .pushFalse | .dup | .dup1 | .dup2 | .dup3 | .swap | .nip | .nip1 | .insert2 | .insert3
  | .insert4 | .perm3 | .perm4 | .perm5 | .swap2 | .rot3l | .rot3r | .rot4l | .rot5l =>
    some (.tagged, .pure)
  | .pushConst | .pushConst8 | .getVar | .getField2 => some (.tagged, .reentrant)
  | .isUndefinedOrNull | .isUndefined | .isNull | .lnot => some (.int32, .pure)
  | .toPropkey => some (.tagged, .frameWrite)
  | .putArg | .putArg0 | .putArg1 | .putArg2 | .putArg3 | .putLoc | .putLoc8 | .putLoc0 | .putLoc1
  | .putLoc2 | .putLoc3 | .putLocCheck | .putLocCheckInit | .setLocUninitialized | .addLoc
  | .incLoc | .decLoc | .drop => some (.effect, .frameWrite)
  | .setArg | .setArg0 | .setArg1 | .setArg2 | .setArg3 | .setLoc | .setLoc8 | .setLoc0 | .setLoc1
  | .setLoc2 | .setLoc3 => some (.tagged, .frameWrite)
  | .call | .call0 | .call1 | .call2 | .call3 | .callMethod => some (.tagged, .reentrant)
  | .getField => some (.tagged, .reentrant)
  | .getLength => some (.int32, .frameWrite)
  | .getArrayEl => some (.tagged, .frameWrite)
  | .putField | .putArrayEl => some (.effect, .frameWrite)
  | .ifFalse | .ifTrue | .ifFalse8 | .ifTrue8 | .goto | .goto8 | .goto16 | .returnOp | .returnUndef
  | .lt | .lte | .gt | .gte | .eq | .neq | .strictEq | .strictNeq | .nop =>
    some (.effect, .control)
  | _ => none

/-- `is_guarded_arithmetic`. -/
def isGuardedArithmetic : OpName → Bool
  | .add | .sub | .mul | .div | .mod | .plus | .neg | .not | .lnot | .inc | .dec | .postInc
  | .postDec | .addLoc | .incLoc | .decLoc | .eq | .neq | .strictEq | .strictNeq | .lt | .lte | .gt
  | .gte | .ifFalse | .ifTrue | .ifFalse8 | .ifTrue8 | .getField | .putField => true
  | _ => false

/-- `is_frame_slot_store`. -/
def isFrameSlotStore (name : OpName) : Bool :=
  name ≠ .setLocUninitialized && (name.isPutLoc || name.isSetLoc || name.isPutArg || name.isSetArg)

/-- Names that start with `call`. -/
def OpName.isCall : OpName → Bool
  | .call | .call0 | .call1 | .call2 | .call3 | .callMethod | .callConstructor => true
  | _ => false

/-- `needs_deopt_guard`. -/
def needsDeoptGuard (name : OpName) : Bool :=
  isGuardedArithmetic name || name.isCall || isFrameSlotStore name ||
    name ∈ [OpName.getArrayEl, .putArrayEl, .getLength, .toPropkey, .or, .and, .xor, .shl, .sar,
      .shr]

/-! ## Deoptimization maps -/

structure OptimizedFrameShape where
  arguments : Nat
  locals : Nat
  stack : Nat
  deriving DecidableEq, Repr

namespace OptimizedFrameShape

def slotCount (shape : OptimizedFrameShape) : Nat := shape.arguments + shape.locals + shape.stack

/-- The flat position of a slot. -/
def index (shape : OptimizedFrameShape) : FrameSlot → Option Nat
  | .argument i => if i < shape.arguments then some i else none
  | .loc i => if i < shape.locals then some (shape.arguments + i) else none
  | .stack i => if i < shape.stack then some (shape.arguments + shape.locals + i) else none

/-- Every slot, in flat order. -/
def slots (shape : OptimizedFrameShape) : List FrameSlot :=
  (List.range shape.arguments).map .argument ++ (List.range shape.locals).map .loc ++
    (List.range shape.stack).map .stack

end OptimizedFrameShape

inductive DeoptPhase where
  | beforeEffect (epoch : Nat)
  | afterEffect (epoch : Nat)
  deriving DecidableEq, Repr

/-- A slot to rebuild and the flat slot it is taken from. Translation makes no
other recipe. -/
structure Materialization where
  slot : FrameSlot
  source : Nat
  deriving DecidableEq, Repr

structure DeoptMap where
  guard : Nat
  resumePc : Nat
  phase : DeoptPhase
  slots : List Materialization
  deriving DecidableEq, Repr

structure GuardSite where
  guard : Nat
  shape : OptimizedFrameShape
  map : DeoptMap
  deriving DecidableEq, Repr

inductive DeoptValidationError where
  | slotCount | duplicateSlot | invalidSlot
  deriving DecidableEq, Repr

/-- Mark one recipe's slot as seen. -/
def DeoptMap.markSlot (shape : OptimizedFrameShape) (seen : List Bool) (recipe : Materialization) :
    Except DeoptValidationError (List Bool) :=
  match shape.index recipe.slot with
  | none => .error .invalidSlot
  | some index =>
    if seen[index]? = some true then .error .duplicateSlot else .ok (seen.set index true)

/-- `DeoptMap::validate`. -/
def DeoptMap.validate (map : DeoptMap) (shape : OptimizedFrameShape) :
    Except DeoptValidationError Unit :=
  if map.slots.length ≠ shape.slotCount then .error .slotCount
  else
    match map.slots.foldlM (DeoptMap.markSlot shape) (List.replicate shape.slotCount false) with
    | .error e => .error e
    | .ok seen => if seen.any (fun present => !present) then .error .slotCount else .ok ()

/-- `identity_deopt_map`: every slot is taken from itself. -/
def identityDeoptMap (guard resumePc : Nat) (phase : DeoptPhase) (shape : OptimizedFrameShape) :
    CompileOutcome DeoptMap :=
  if 65536 ≤ shape.slotCount then Outcome.fail .resourceLimit
  else
    let map : DeoptMap := {
      guard, resumePc, phase
      slots := shape.slots.zipIdx.map fun (slot, flat) => { slot, source := flat } }
    match map.validate shape with
    | .ok () => .ok map
    | .error _ => Outcome.fail .invalidArtifact

end QuickJit
