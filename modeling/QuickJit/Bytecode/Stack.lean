import Mathlib
import QuickJit.Bytecode.Cfg

/-
  The verifier's abstract interpretation (`bytecode/stack.rs`).

  An abstract state gives the kind of every local and operand-stack slot and
  the list of live catch offsets. `transfer` executes one instruction on it,
  `mergeState` and `joinHandlerLocals` join a state into the entry of a block,
  and `prove` runs the blocks over a worklist until no entry changes.

  Stacks are lists with the top last, so a catch entry's index is a position
  in the list, as in the source. `Proving.steps` is a history variable: it
  records every `transfer` the loop runs, in order, and nothing reads it.

  Correspondence (Rust ↔ Lean):
    `WorkBudget`                          ↔ the pair `used`, `limit` and `charge`
    the body of the instruction loop      ↔ `proveInstruction`
    the handler branch of the edge loop   ↔ `catchEdge`
    the ordinary branch of the edge loop  ↔ `ordinaryEdge`
    one turn of `while let Some(block_pc)` ↔ `proveStep`
-/

namespace QuickJit

structure AbstractState where
  locals : List SlotKind
  stack : List SlotKind
  /-- Live catch offsets, innermost last: the operand-stack index of each
  `CatchOffset` slot and its handler (`none` for iterator close offsets). -/
  catches : List (Nat × Option Nat)
  deriving DecidableEq, Repr

/-- Where an exception raised while executing an instruction resumes. -/
structure ExceptionHandler where
  catchIndex : Nat
  handlerPc : Option Nat
  resumesInFrame : Bool
  deriving DecidableEq, Repr

namespace AbstractState

/-- The innermost catch offset that resumes a handler in this frame. -/
def innermostHandler (s : AbstractState) : Option (Nat × Nat) :=
  s.catches.reverse.findSome? fun c => c.2.map fun pc => (c.1, pc)

/-- The innermost live catch offset; its index must fit `u16`. -/
def innermostCatch (s : AbstractState) : Option ExceptionHandler :=
  s.catches.getLast?.bind fun c =>
    if c.1 < 65536 then
      some { catchIndex := c.1, handlerPc := c.2, resumesInFrame := s.innermostHandler.isSome }
    else none

def cellCount (s : AbstractState) : Nat := satAdd s.locals.length s.stack.length

/-- The complete frame: arguments, locals, closure variables, operand stack. -/
def liveSlots (snapshot : CompileSnapshot) (s : AbstractState) : List SlotKind :=
  List.replicate snapshot.argCount.toNat .tagged ++ s.locals ++
    List.replicate snapshot.closureCount.toNat .tagged ++ s.stack

end AbstractState

/-! ## One instruction -/

def effectivePop (i : Instruction) : Nat :=
  match i.format with
  | .nPop | .nPopU16 => satAdd i.opcode.nPop (i.operandU16 1)
  | .nPopFixed =>
    match i.name.lastDigit with
    | some arguments => satAdd i.opcode.nPop arguments
    | none => i.opcode.nPop
  | _ => i.opcode.nPop

def localIndex (i : Instruction) : Option Nat :=
  match i.format with
  | .loc => some (i.operandU16 1)
  | .loc8 => some (i.operandU8 1)
  | .noneLocal => i.name.lastDigit
  | _ => none

/-- The kind an instruction pushes when nothing more specific applies. -/
def pushedKind (snapshot : CompileSnapshot) (i : Instruction) : SlotKind :=
  if i.name ∈ [OpName.pushI32, .pushI8, .pushI16, .pushMinus1, .push0, .push1, .push2, .push3,
      .push4, .push5, .push6, .push7] then .int32
  else if i.name = .pushConst ∨ i.name = .pushConst8 then
    let index := if i.name = .pushConst then i.operandU32 1 else i.operandU8 1
    match snapshot.constants[index]? with
    | some c =>
      if c.tag = jsTagInt then .int32 else if c.tag = jsTagFloat64 then .float64 else .tagged
    | none => .tagged
  else if i.name = .catchOp then .catchOffset
  else .tagged

/-- The operand positions, counted from the deepest popped slot, that a stack
permutation pushes, with the number of slots it pops. -/
def permutation : OpName → Option (Nat × List Nat)
  | .nip => some (2, [1])
  | .nip1 => some (3, [1, 2])
  | .dup => some (1, [0, 0])
  | .dup1 => some (2, [0, 0, 1])
  | .dup2 => some (2, [0, 1, 0, 1])
  | .dup3 => some (3, [0, 1, 2, 0, 1, 2])
  | .insert2 => some (2, [1, 0, 1])
  | .insert3 => some (3, [2, 0, 1, 2])
  | .insert4 => some (4, [3, 0, 1, 2, 3])
  | .perm3 => some (3, [1, 0, 2])
  | .perm4 => some (4, [2, 0, 1, 3])
  | .perm5 => some (5, [3, 0, 1, 2, 4])
  | .swap => some (2, [1, 0])
  | .swap2 => some (4, [2, 3, 0, 1])
  | .rot3l => some (3, [1, 2, 0])
  | .rot3r => some (3, [2, 0, 1])
  | .rot4l => some (4, [1, 2, 3, 0])
  | .rot5l => some (5, [1, 2, 3, 4, 0])
  | _ => none

/-- `copied_stack_values`: the slots a permutation pushes, when the popped
slots are as many as it names. -/
def copiedStackValues {α : Type} (name : OpName) (popped : List α) : Option (List α) :=
  (permutation name).bind fun (arity, order) =>
    if popped.length = arity then some (order.filterMap fun k => popped[k]?) else none

def checkStackSize (snapshot : CompileSnapshot) (i : Instruction) (s : AbstractState) :
    VerifyOutcome AbstractState :=
  if snapshot.stackSize.toNat < s.stack.length then
    reject i.pc (.stackSizeExceeded snapshot.stackSize.toNat s.stack.length)
  else .ok s

/-- The catch offsets below stack height `height`. -/
def trimCatches (height : Nat) (catches : List (Nat × Option Nat)) : List (Nat × Option Nat) :=
  catches.rdropWhile fun c => decide (height ≤ c.1)

/-- `catch_offset ... value -> value`. -/
def transferNipCatch (snapshot : CompileSnapshot) (i : Instruction) (s : AbstractState) :
    VerifyOutcome AbstractState :=
  match s.stack.getLast?, s.catches.getLast? with
  | none, _ => reject i.pc (.stackUnderflow 1 0)
  | some _, none => reject i.pc .unsupportedExceptionRegion
  | some value, some (index, _) =>
    if s.stack.dropLast[index]? ≠ some .catchOffset then
      reject i.pc .unsupportedExceptionRegion
    else checkStackSize snapshot i
      { s with stack := s.stack.dropLast.take index ++ [value], catches := s.catches.dropLast }

/-- Write a local that the source indexes without a check. -/
def setLocal (locals : List SlotKind) (index : Option Nat) (kind : SlotKind) :
    VerifyOutcome (List SlotKind) :=
  match index with
  | some k => if k < locals.length then .ok (locals.set k kind) else Outcome.panicked
  | none => Outcome.panicked

/-- The locals after an instruction that pops `top` last. -/
def transferLocals (i : Instruction) (locals : List SlotKind) (top : SlotKind) :
    VerifyOutcome (List SlotKind) :=
  if i.name = .setLocUninitialized then setLocal locals (localIndex i) .uninitialized
  else if i.name.isPutLoc || i.name.isSetLoc then setLocal locals (localIndex i) top
  else if i.name ∈ [OpName.incLoc, .decLoc, .addLoc] then setLocal locals (localIndex i) .tagged
  else .ok locals

/-- The kinds an instruction pushes and the catch offset it makes live, if any:
its handler, or `none` for an iterator. The pushed catch offset is on top. -/
def transferPush (snapshot : CompileSnapshot) (i : Instruction) (popped : List SlotKind)
    (top : SlotKind) : VerifyOutcome (List SlotKind × Option (Option Nat)) :=
  if i.name = .forOfStart ∨ i.name = .forAwaitOfStart then
    .ok ([.tagged, .tagged, .catchOffset], some none)
  else if i.name = .catchOp then do
    let target ← Outcome.okOr ⟨i.pc, .unsupportedExceptionRegion⟩ i.targetPc
    .ok ([.catchOffset], some (some target))
  else if i.name = .gosub then .ok ([.int32], none)
  else if i.name = .usingDisposeInit then .ok ([.uninitialized], none)
  else
    match copiedStackValues i.name popped with
    | some values => .ok (values, none)
    | none =>
      if i.name = .toPropkey then .ok ([if top = .int32 then .int32 else .tagged], none)
      else if i.opcode.nPush = 1 ∧
          (i.name.isSetLoc || i.name.isSetArg || i.name.isSetVarRef) then .ok ([top], none)
      else .ok (List.replicate i.opcode.nPush (pushedKind snapshot i), none)

def transferLoad (i : Instruction) (locals : List SlotKind) : VerifyOutcome (List SlotKind) :=
  if i.name = .getLoc0Loc1 then
    match locals[0]?, locals[1]? with
    | some a, some b => .ok [a, b]
    | _, _ => Outcome.panicked
  else
    match (localIndex i).bind fun k => locals[k]? with
    | some a => .ok [a]
    | none => Outcome.panicked

/-- The state after an instruction that keeps `kept`, pushes `pushed` on it and
makes the pushed top a live catch offset when `live` says so. -/
def pushState (locals kept : List SlotKind) (catches : List (Nat × Option Nat))
    (pushed : List SlotKind) (live : Option (Option Nat)) : AbstractState where
  locals := locals
  stack := kept ++ pushed
  catches :=
    match live with
    | some handler => catches ++ [(kept.length + pushed.length - 1, handler)]
    | none => catches

/-- `transfer`. -/
def transfer (snapshot : CompileSnapshot) (i : Instruction) (s : AbstractState) :
    VerifyOutcome AbstractState :=
  let pop := effectivePop i
  if s.stack.length < pop then reject i.pc (.stackUnderflow pop s.stack.length)
  else if i.name = .nipCatch then transferNipCatch snapshot i s
  else
    let kept := s.stack.take (s.stack.length - pop)
    let popped := s.stack.drop (s.stack.length - pop)
    let top := popped.getLast?.getD .tagged
    if i.name = .forOfNext ∨ i.name = .forInNext then
      checkStackSize snapshot i { s with stack := s.stack ++ [.tagged, .tagged] }
    else
      let catches := trimCatches kept.length s.catches
      if i.name.isGetLoc then do
        let pushed ← transferLoad i s.locals
        checkStackSize snapshot i (pushState s.locals kept catches pushed none)
      else do
        let locals ← transferLocals i s.locals top
        let (pushed, live) ← transferPush snapshot i popped top
        checkStackSize snapshot i (pushState locals kept catches pushed live)

/-! ## Joins -/

/-- How an ordinary merge joins two kinds of a local. -/
def joinKind : SlotKind → SlotKind → Option SlotKind
  | .tagged, .int32 | .tagged, .float64 => some .tagged
  | .int32, .tagged | .float64, .tagged => some .tagged
  | .int32, .float64 | .float64, .int32 => some .tagged
  | .tagged, .uninitialized | .int32, .uninitialized | .float64, .uninitialized => some .tagged
  | .uninitialized, .tagged | .uninitialized, .int32 | .uninitialized, .float64 => some .tagged
  | _, _ => none

/-- The first operand-stack slot on which two stacks of one height differ. -/
def firstMismatch : Nat → List SlotKind → List SlotKind → Option (Nat × SlotKind × SlotKind)
  | k, e :: es, a :: as => if e = a then firstMismatch (k + 1) es as else some (k, e, a)
  | _, _, _ => none

/-- Join one local, reported as `slot` when it cannot be joined. -/
def mergeKind (pc slot : Nat) (e a : SlotKind) : VerifyOutcome SlotKind :=
  if e = a then .ok e else Outcome.okOr ⟨pc, .incompatibleMergeKind slot e a⟩ (joinKind e a)

/-- Join locals one by one; the flag says whether one changed. `slot` is the
reported index of the first. -/
def mergeLocals (pc : Nat) : Nat → List SlotKind → List SlotKind →
    VerifyOutcome (List SlotKind × Bool)
  | slot, e :: es, a :: as => do
    let joined ← mergeKind pc slot e a
    let (rest, changed) ← mergeLocals pc (slot + 1) es as
    .ok (joined :: rest, decide (joined ≠ e) || changed)
  | _, es, _ => .ok (es, false)

/-- `merge_state`: the joined entry and whether it changed. -/
def mergeState (pc : Nat) (expected actual : AbstractState) :
    VerifyOutcome (AbstractState × Bool) :=
  if expected.stack.length ≠ actual.stack.length then
    reject pc (.inconsistentMergeHeight expected.stack.length actual.stack.length)
  else if expected.catches ≠ actual.catches then reject pc .unsupportedExceptionRegion
  else
    match firstMismatch 0 expected.stack actual.stack with
    | some (slot, e, a) => reject pc (.incompatibleMergeKind slot e a)
    | none => do
      let (locals, changed) ←
        mergeLocals pc expected.stack.length expected.locals actual.locals
      .ok ({ expected with locals }, changed)

/-- The locals of `join_handler_locals`. -/
def widenLocals (pc : Nat) : List SlotKind → List SlotKind → VerifyOutcome (List SlotKind × Bool)
  | e :: es, a :: as =>
    if e = a then do
      let (rest, changed) ← widenLocals pc es as
      .ok (e :: rest, changed)
    else if e = .catchOffset ∨ a = .catchOffset then reject pc .unsupportedExceptionRegion
    else do
      let (rest, changed) ← widenLocals pc es as
      .ok (.tagged :: rest, decide (e ≠ .tagged) || changed)
  | es, _ => .ok (es, false)

/-- `join_handler_locals`: the joined entry and whether it changed. -/
def joinHandlerLocals (pc : Nat) (expected : AbstractState) (actual : List SlotKind) :
    VerifyOutcome (AbstractState × Bool) :=
  if expected.locals.length ≠ actual.length then reject pc .unsupportedExceptionRegion
  else do
    let (locals, changed) ← widenLocals pc expected.locals actual
    .ok ({ expected with locals }, changed)

/-! ## The worklist -/

/-- One `transfer` the worklist ran. -/
structure TransferStep where
  instruction : Instruction
  before : AbstractState
  after : AbstractState
  deriving DecidableEq, Repr

/-- The worklist's variables. -/
structure Proving where
  used : Nat
  entries : OrdMap Nat AbstractState
  queue : List Nat
  before : OrdMap Nat AbstractState
  after : OrdMap Nat AbstractState
  visited : OrdSet Nat
  handlers : OrdMap Nat ExceptionHandler
  steps : List TransferStep

/-- What `prove` returns, with its history. -/
structure StateProof where
  before : OrdMap Nat AbstractState
  after : OrdMap Nat AbstractState
  visited : OrdSet Nat
  handlers : OrdMap Nat ExceptionHandler
  steps : List TransferStep

/-- What stays fixed while `prove` runs. -/
structure ProveContext where
  snapshot : CompileSnapshot
  instructions : List Instruction
  cfg : ControlFlowGraph
  beforePoints : OrdSet Nat
  afterPoints : OrdSet Nat
  maxWorkUnits : Nat

/-- `WorkBudget::charge`. -/
def charge (ctx : ProveContext) (pc units : Nat) (p : Proving) : VerifyOutcome Proving :=
  let used := satAdd p.used units
  if ctx.maxWorkUnits < used then reject pc (.resourceLimit .workUnits)
  else .ok { p with used }

/-- Put a state into the entry of a block that has one, and queue the block
again when the entry changed. -/
def updateEntry (p : Proving) (pc : Nat) (joined : AbstractState × Bool) : Proving :=
  { p with
    entries := p.entries.insert pc joined.1
    queue := if joined.2 then p.queue ++ [pc] else p.queue }

/-- The first state to reach a block. -/
def newEntry (p : Proving) (pc : Nat) (s : AbstractState) : Proving :=
  { p with entries := p.entries.insert pc s, queue := p.queue ++ [pc] }

/-- Keep a state at a requested point. -/
def recordBefore (ctx : ProveContext) (i : Instruction) (s : AbstractState) (p : Proving) :
    VerifyOutcome Proving :=
  if i.pc ∈ ctx.beforePoints then do
    let p ← charge ctx i.pc s.cellCount p
    .ok { p with before := p.before.insert i.pc s }
  else .ok p

def recordAfter (ctx : ProveContext) (i : Instruction) (s : AbstractState) (p : Proving) :
    VerifyOutcome Proving :=
  if i.pc ∈ ctx.afterPoints then do
    let p ← charge ctx i.pc s.cellCount p
    .ok { p with after := p.after.insert i.pc s }
  else .ok p

/-- The instruction is visited, with its innermost catch offset. -/
def recordVisit (i : Instruction) (s : AbstractState) (p : Proving) : Proving :=
  { p with
    visited := p.visited.insert i.pc
    handlers :=
      match s.innermostCatch with
      | some handler => p.handlers.insert i.pc handler
      | none => p.handlers }

/-- Any instruction inside a try region may transfer to its handler with the
locals it observed on entry. -/
def joinHandler (ctx : ProveContext) (i : Instruction) (s : AbstractState) (p : Proving) :
    VerifyOutcome Proving :=
  match s.innermostHandler with
  | none => .ok p
  | some (_, handlerPc) => do
    let p ← charge ctx i.pc s.locals.length p
    let expected ← Outcome.okOr ⟨i.pc, .unsupportedExceptionRegion⟩ (p.entries.get? handlerPc)
    let joined ← joinHandlerLocals handlerPc expected s.locals
    .ok (updateEntry p handlerPc joined)

def proveInstruction (ctx : ProveContext) (ps : Proving × AbstractState) (i : Instruction) :
    VerifyOutcome (Proving × AbstractState) := do
  let (p, s) := ps
  let p ← charge ctx i.pc (satAdd 1 s.cellCount) p
  let p ← recordBefore ctx i s p
  let p ← joinHandler ctx i s (recordVisit i s p)
  let s' ← transfer ctx.snapshot i s
  let p ← recordAfter ctx i s' { p with steps := p.steps ++ [⟨i, s, s'⟩] }
  .ok (p, s')

/-- The handler of a block that ends in `catch`. -/
def catchTarget (tail : Instruction) : Option Nat :=
  if tail.name = .catchOp then tail.targetPc else none

/-- The state a handler is entered with: the caught value in place of the catch
offset on top, and that offset no longer live. -/
def caughtState (successor : Nat) (s : AbstractState) : Option AbstractState :=
  if s.stack.getLast? = some .catchOffset ∧
      (s.catches.getLast?.any fun c => c.2 = some successor) then
    some { s with stack := s.stack.dropLast ++ [.tagged], catches := s.catches.dropLast }
  else none

/-- The edge of a `catch` to its handler. -/
def catchEdge (ctx : ProveContext) (tail : Instruction) (s : AbstractState) (p : Proving)
    (successor : Nat) : VerifyOutcome Proving := do
  let incoming ← Outcome.okOr ⟨tail.pc, .unsupportedExceptionRegion⟩ (caughtState successor s)
  let p ← charge ctx successor incoming.cellCount p
  match p.entries.get? successor with
  | some expected =>
    if expected.stack ≠ incoming.stack ∨ expected.catches ≠ incoming.catches then
      reject successor .unsupportedExceptionRegion
    else do
      let joined ← joinHandlerLocals successor expected incoming.locals
      .ok (updateEntry p successor joined)
  | none => .ok (newEntry p successor incoming)

/-- Forget the numeric kinds of locals. -/
def widenNumeric (kind : SlotKind) : SlotKind :=
  if kind = .int32 ∨ kind = .float64 then .tagged else kind

/-- The state an ordinary edge carries: a loop header is entered with numeric
locals already forgotten. -/
def edgeState (cfg : ControlFlowGraph) (successor : Nat) (s : AbstractState) : AbstractState :=
  if cfg.isLoopHeader successor then { s with locals := s.locals.map widenNumeric } else s

/-- Any other edge. -/
def ordinaryEdge (ctx : ProveContext) (s : AbstractState) (p : Proving) (successor : Nat) :
    VerifyOutcome Proving := do
  let incoming := edgeState ctx.cfg successor s
  let p ← charge ctx successor incoming.cellCount p
  match p.entries.get? successor with
  | some expected => do
    let joined ← mergeState successor expected incoming
    .ok (updateEntry p successor joined)
  | none => .ok (newEntry p successor incoming)

def proveEdge (ctx : ProveContext) (tail : Instruction) (s : AbstractState) (p : Proving)
    (successor : Nat) : VerifyOutcome Proving :=
  if catchTarget tail = some successor then catchEdge ctx tail s p successor
  else ordinaryEdge ctx s p successor

/-- Run one block from its entry and propagate to its successors. -/
def proveBlock (ctx : ProveContext) (blockPc : Nat) (p : Proving) : VerifyOutcome Proving := do
  let block ← Outcome.expect (ctx.cfg.block blockPc)
  let entry ← Outcome.expect (p.entries.get? blockPc)
  let p ← charge ctx blockPc entry.cellCount p
  let body := block.instructions ctx.instructions
  let (p, s) ← body.foldlM (proveInstruction ctx) (p, entry)
  let tail ← Outcome.expect body.getLast?
  if catchTarget tail = some tail.nextPc then reject tail.pc .unsupportedExceptionRegion
  else block.successors.foldlM (proveEdge ctx tail s) p

/-- One turn of the worklist. -/
def proveStep (ctx : ProveContext) (p : Proving) : VerifyOutcome (Option Proving) :=
  match p.queue with
  | [] => .ok none
  | blockPc :: queue => do
    let p ← proveBlock ctx blockPc { p with queue }
    .ok (some p)

/-- The state a function is entered with. -/
def initialState (snapshot : CompileSnapshot) : AbstractState where
  locals := List.replicate snapshot.localCount.toNat .tagged
  stack := []
  catches := []

def proveContext (snapshot : CompileSnapshot) (is : List Instruction) (cfg : ControlFlowGraph)
    (maxWorkUnits : Nat) : ProveContext where
  snapshot := snapshot
  instructions := is
  cfg := cfg
  beforePoints := OrdSet.ofList
    (snapshot.metadata.osrPoints.map OsrPoint.pc ++ snapshot.metadata.deoptPoints.map DeoptPoint.pc
      ++ (cfg.blocks.map BasicBlock.startPc).filter cfg.isLoopHeader)
  afterPoints := OrdSet.ofList (snapshot.metadata.deoptPoints.map DeoptPoint.pc)
  maxWorkUnits := maxWorkUnits

def initialProving (snapshot : CompileSnapshot) : Proving where
  used := 0
  entries := OrdMap.empty.insert 0 (initialState snapshot)
  queue := [0]
  before := OrdMap.empty
  after := OrdMap.empty
  visited := OrdSet.empty
  handlers := OrdMap.empty
  steps := []

/-- The worklist run to its end. -/
def proveEntries (fuel : Nat) (ctx : ProveContext) : VerifyOutcome Proving := do
  let p ← charge ctx 0 ctx.snapshot.localCount.toNat (initialProving ctx.snapshot)
  Outcome.iterate (proveStep ctx) fuel p

/-- `prove`; `fuel` bounds the worklist. -/
def prove (fuel : Nat) (snapshot : CompileSnapshot) (is : List Instruction)
    (cfg : ControlFlowGraph) (maxWorkUnits : Nat) : VerifyOutcome StateProof :=
  if is.isEmpty then
    .ok { before := OrdMap.empty, after := OrdMap.empty, visited := OrdSet.empty,
          handlers := OrdMap.empty, steps := [] }
  else do
    let p ← proveEntries fuel (proveContext snapshot is cfg maxWorkUnits)
    .ok { before := p.before, after := p.after, visited := p.visited, handlers := p.handlers,
          steps := p.steps }

end QuickJit
