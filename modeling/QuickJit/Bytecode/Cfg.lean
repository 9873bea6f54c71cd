import QuickJit.Bytecode.Snapshot

/-
  The control-flow graph of a decoded function (`bytecode/cfg.rs`).

  `build` cuts the instructions at branch targets and behind branches and
  terminators, and gives each block the pcs it can continue at; the `ret` of a
  finally block continues at the return points of the `gosub` sites that own
  it. What later proofs need of a built graph is stated once, as
  `ControlFlowGraph.Ok`: every block is a non-empty run of instructions,
  starting at the pc it is looked up by, only its last instruction can branch,
  and a `catch` at its end has its handler among the successors.

  Correspondence (Rust ↔ Lean):
    the boundary scan of `build`     ↔ `scanInstruction`
    the block loop of `build`        ↔ `buildBlock`, `buildBlocks`
    `link_subroutine_returns`        ↔ `linkSubroutineReturns`
    `blocks[index].successors = …`   ↔ `setSuccessors`
-/

namespace QuickJit

structure BasicBlock where
  startPc : Nat
  endPc : Nat
  first : Nat
  last : Nat
  successors : List Nat
  deriving DecidableEq, Repr

structure ControlFlowGraph where
  blocks : List BasicBlock
  byPc : OrdMap Nat Nat
  loopHeaders : OrdSet Nat

/-- `&instructions[block.instruction_range()]`. -/
def BasicBlock.instructions (b : BasicBlock) (is : List Instruction) : List Instruction :=
  (is.drop b.first).take (b.last - b.first)

namespace ControlFlowGraph

def block (cfg : ControlFlowGraph) (pc : Nat) : Option BasicBlock :=
  (cfg.byPc.get? pc).bind fun index => cfg.blocks[index]?

def isLoopHeader (cfg : ControlFlowGraph) (pc : Nat) : Bool := pc ∈ cfg.loopHeaders

end ControlFlowGraph

def isUnconditional (i : Instruction) : Bool :=
  i.name ∈ [OpName.goto, .goto8, .goto16, .gosub]

def isSubroutineReturn (i : Instruction) : Bool := i.name = .ret

def isTerminal (i : Instruction) : Bool :=
  i.name ∈ [OpName.returnOp, .returnUndef, .returnAsync, .throwOp, .throwError, .tailCall,
    .tailCallMethod]

def hasValidExit (i : Instruction) : Bool :=
  isTerminal i || isSubroutineReturn i || (i.branchTarget.isSome && isUnconditional i)

/-- The block boundaries and loop headers found so far. -/
structure Boundaries where
  starts : OrdSet Nat
  loopHeaders : OrdSet Nat

/-- The pc behind an instruction, when there is one. -/
def followingPc (byteLen : Nat) (i : Instruction) : Option Nat :=
  if i.nextPc < byteLen then some i.nextPc else none

/-- Add an optional boundary. -/
def OrdSet.insertSome (s : OrdSet Nat) : Option Nat → OrdSet Nat
  | some pc => s.insert pc
  | none => s

def scanInstruction (pcs : OrdSet Nat) (byteLen : Nat) (found : Boundaries) (i : Instruction) :
    VerifyOutcome Boundaries :=
  match i.branchTarget with
  | some target =>
    if target < 0 ∨ byteLen ≤ target.toNat then reject i.pc (.branchTargetOutOfRange target)
    else if target.toNat ∉ pcs then reject i.pc (.branchTargetInsideInstruction target.toNat)
    else .ok {
      starts := (found.starts.insert target.toNat).insertSome (followingPc byteLen i)
      loopHeaders :=
        if target.toNat ≤ i.pc then found.loopHeaders.insert target.toNat
        else found.loopHeaders }
  | none =>
    if isTerminal i || isSubroutineReturn i then
      .ok { found with starts := found.starts.insertSome (followingPc byteLen i) }
    else .ok found

/-- The pcs a block that ends in `tail` continues at. -/
def tailSuccessors (byteLen : Nat) (tail : Instruction) : List Nat :=
  let next := (followingPc byteLen tail).toList
  let successors :=
    match tail.branchTarget with
    | some target => target.toNat :: (if isUnconditional tail then [] else next)
    | none => if isTerminal tail || isSubroutineReturn tail then [] else next
  (OrdSet.ofList successors).elems

/-- The last instruction of a range that ends before position `last`. -/
def tailBefore (is : List Instruction) : Nat → Option Instruction
  | 0 => none
  | n + 1 => is[n]?

/-- The block from one boundary to the next. -/
def buildBlock (is : List Instruction) (byteLen : Nat) (indexByPc : OrdMap Nat Nat)
    (start stop : Nat) : VerifyOutcome BasicBlock := do
  let first ← Outcome.expect (indexByPc.get? start)
  let last := first + (is.drop first).findIdx (fun i => decide (stop ≤ i.pc))
  let tail ← Outcome.expect (tailBefore is last)
  .ok { startPc := start, endPc := stop, first, last,
        successors := tailSuccessors byteLen tail }

def buildBlocks (is : List Instruction) (byteLen : Nat) (indexByPc : OrdMap Nat Nat) :
    List Nat → VerifyOutcome (List BasicBlock)
  | [] => .ok []
  | start :: rest => do
    let block ← buildBlock is byteLen indexByPc start (rest.head?.getD byteLen)
    let blocks ← buildBlocks is byteLen indexByPc rest
    .ok (block :: blocks)

/-! ## Finally blocks -/

/-- The pc a `gosub` returns to. -/
def returnPoint (byPc : OrdMap Nat Nat) (i : Instruction) : VerifyOutcome Nat :=
  if byPc.contains i.nextPc then .ok i.nextPc else reject i.pc .unsupportedExceptionRegion

/-- Record the return point of a block that ends in `gosub`. -/
def addReturnPoint (is : List Instruction) (byPc : OrdMap Nat Nat)
    (points : OrdMap Nat (OrdSet Nat)) (b : BasicBlock) :
    VerifyOutcome (OrdMap Nat (OrdSet Nat)) := do
  let tail ← Outcome.expect (tailBefore is b.last)
  if tail.name = .gosub then
    let target ← Outcome.okOr ⟨tail.pc, .unsupportedExceptionRegion⟩ b.successors.head?
    let point ← returnPoint byPc tail
    .ok (points.insert target (((points.get? target).getD OrdSet.empty).insert point))
  else .ok points

/-- The walk from one finally entry: pcs still to visit, last pushed first, and
the owner found for each `ret` block. -/
structure OwnerWalk where
  visited : OrdSet Nat
  pending : List Nat
  owners : OrdMap Nat Nat

/-- One turn of the owner walk. -/
def ownerStep (is : List Instruction) (blocks : List BasicBlock) (byPc : OrdMap Nat Nat)
    (entry : Nat) (w : OwnerWalk) : VerifyOutcome (Option OwnerWalk) :=
  match w.pending with
  | [] => .ok none
  | pc :: pending =>
    if pc ∈ w.visited then .ok (some { w with pending })
    else do
      let w := { w with visited := w.visited.insert pc, pending }
      let index ← Outcome.okOr ⟨pc, .unsupportedExceptionRegion⟩ (byPc.get? pc)
      let block ← Outcome.expect blocks[index]?
      let tail ← Outcome.expect (tailBefore is block.last)
      if tail.name = .ret then
        if ((w.owners.get? index).any fun owner => owner ≠ entry) then
          reject tail.pc .unsupportedExceptionRegion
        else .ok (some { w with owners := w.owners.insert index entry })
      else if tail.name = .gosub then do
        let point ← returnPoint byPc tail
        .ok (some { w with pending := point :: pending })
      else .ok (some { w with pending := block.successors.reverse ++ pending })

/-- Attribute the `ret` blocks one finally entry reaches. -/
def walkOwners (fuel : Nat) (is : List Instruction) (blocks : List BasicBlock)
    (byPc : OrdMap Nat Nat) (owners : OrdMap Nat Nat) (entry : Nat) :
    VerifyOutcome (OrdMap Nat Nat) := do
  let w ← Outcome.iterate (ownerStep is blocks byPc entry) fuel
    { visited := OrdSet.empty, pending := [entry], owners }
  .ok w.owners

/-- Give one `ret` block its return points. -/
def setSuccessors (points : OrdMap Nat (OrdSet Nat)) (blocks : List BasicBlock)
    (owned : Nat × Nat) : VerifyOutcome (List BasicBlock) := do
  let returns ← Outcome.expect (points.get? owned.2)
  .ok (blocks.modify owned.1 fun b => { b with successors := returns.elems })

def linkSubroutineReturns (fuel : Nat) (is : List Instruction) (blocks : List BasicBlock)
    (byPc : OrdMap Nat Nat) : VerifyOutcome (List BasicBlock) := do
  let points ← blocks.foldlM (addReturnPoint is byPc) OrdMap.empty
  let owners ← points.keys.foldlM (walkOwners fuel is blocks byPc) OrdMap.empty
  owners.entries.foldlM (setSuccessors points) blocks

/-- `cfg::build`; `fuel` bounds the walks from the finally entries. -/
def buildCfg (fuel : Nat) (is : List Instruction) (byteLen maxBlocks : Nat) :
    VerifyOutcome ControlFlowGraph := do
  if is.isEmpty then reject 0 .emptyBytecode
  else
    let pcs := OrdSet.ofList (is.map Instruction.pc)
    let found ← is.foldlM (scanInstruction pcs byteLen)
      { starts := OrdSet.empty.insert 0, loopHeaders := OrdSet.empty }
    if maxBlocks < found.starts.elems.length then
      reject 0 (.resourceLimit .basicBlocks)
    else
      let indexByPc := OrdMap.ofList (is.zipIdx.map fun (i, index) => (i.pc, index))
      let blocks ← buildBlocks is byteLen indexByPc found.starts.elems
      let byPc := OrdMap.ofList (blocks.zipIdx.map fun (b, index) => (b.startPc, index))
      let blocks ← linkSubroutineReturns fuel is blocks byPc
      .ok { blocks, byPc, loopHeaders := found.loopHeaders }

end QuickJit
