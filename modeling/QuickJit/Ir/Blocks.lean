import QuickJit.Ir.Node

/-
  The first stage of `OptimizedIr::translate`: one node per instruction.

  Before it starts, the stack depth at every block is computed
  (`optimizedBlockDepths`), loop headers must have an empty stack, and every
  checked access of a lexical local must be initialized on every path
  (`proveLexicalChecks`). A loop header gets a guard node first; a tail call
  becomes a call and a return.
-/

namespace QuickJit

/-! ## Stack depths -/

/-- The depth after one instruction, in `u16` arithmetic. -/
def depthAfter (depth : Nat) (i : Instruction) : CompileOutcome Nat :=
  if 65536 ≤ effectivePop i then Outcome.fail .resourceLimit
  else if depth < effectivePop i then Outcome.fail .invalidArtifact
  else if 65536 ≤ depth - effectivePop i + i.opcode.nPush then Outcome.fail .resourceLimit
  else .ok (depth - effectivePop i + i.opcode.nPush)

/-- The variables of `optimized_block_depths`. -/
structure DepthWalk where
  depths : OrdMap Nat Nat
  queue : List Nat

/-- Give one successor its depth, or compare it with the one it has. -/
def depthSuccessor (depth : Nat) (w : DepthWalk) (successor : Nat) : CompileOutcome DepthWalk :=
  match w.depths.get? successor with
  | some existing => if existing ≠ depth then Outcome.fail .invalidArtifact else .ok w
  | none =>
    .ok { depths := w.depths.insert successor depth, queue := w.queue ++ [successor] }

/-- One turn of `optimized_block_depths`. -/
def depthStep (f : VerifiedFunction) (w : DepthWalk) : CompileOutcome (Option DepthWalk) :=
  match w.queue with
  | [] => .ok none
  | pc :: queue => do
    let block ← Outcome.okOr .invalidArtifact (f.cfg.block pc)
    let depth ← Outcome.okOr .invalidArtifact (w.depths.get? pc)
    let depth ← (block.instructions f.instructions).foldlM depthAfter depth
    let w ← block.successors.foldlM (depthSuccessor depth) { w with queue }
    .ok (some w)

/-- `optimized_block_depths`; `fuel` bounds the walk. -/
def optimizedBlockDepths (fuel : Nat) (f : VerifiedFunction) : CompileOutcome (OrdMap Nat Nat) := do
  let w ← Outcome.iterate (depthStep f) fuel { depths := OrdMap.empty.insert 0 0, queue := [0] }
  .ok w.depths

/-! ## Lexical checks -/

/-- `LEXICAL_MAY_BE_INITIALIZED`. -/
def lexicalMayBeInitialized : Nat := 1

/-- `LEXICAL_MAY_BE_UNINITIALIZED`. -/
def lexicalMayBeUninitialized : Nat := 2

/-- What one instruction does to the initialization state of the locals. -/
def lexicalInstruction (state : List Nat) (i : Instruction) : CompileOutcome (List Nat) :=
  match localIndex i with
  | none => .ok state
  | some index => do
    let slot ← Outcome.okOr .invalidArtifact state[index]?
    if i.name = .setLocUninitialized then .ok (state.set index lexicalMayBeUninitialized)
    else if i.name = .getLocCheck ∨ i.name = .putLocCheck then
      if slot &&& lexicalMayBeUninitialized ≠ 0 then Outcome.fail .unsupportedOpcode
      else .ok (state.set index lexicalMayBeInitialized)
    else if i.name = .putLocCheckInit then Outcome.fail .unsupportedOpcode
    else if i.name.isPutLoc || i.name.isSetLoc || i.name ∈ [OpName.incLoc, .decLoc, .addLoc] then
      .ok (state.set index lexicalMayBeInitialized)
    else .ok state

/-- Join a state into a successor, queueing it when it is new or changed. -/
def lexicalSuccessor (state : List Nat) (w : OrdMap Nat (List Nat) × List Nat) (successor : Nat) :
    OrdMap Nat (List Nat) × List Nat :=
  match w.1.get? successor with
  | some existing =>
    let joined := existing.zipWith (· ||| ·) state ++ existing.drop state.length
    (w.1.insert successor joined, if joined ≠ existing then w.2 ++ [successor] else w.2)
  | none => (w.1.insert successor state, w.2 ++ [successor])

/-- The worklist of `prove_lexical_checks`, on its own budget. -/
def lexicalWalk (f : VerifiedFunction) : Nat → OrdMap Nat (List Nat) → List Nat → CompileOutcome Unit
  | _, _, [] => .ok ()
  | 0, _, _ :: _ => Outcome.fail .resourceLimit
  | budget + 1, entry, pc :: queue => do
    let block ← Outcome.okOr .invalidArtifact (f.cfg.block pc)
    let state ← Outcome.okOr .invalidArtifact (entry.get? pc)
    let state ← (block.instructions f.instructions).foldlM lexicalInstruction state
    let w := block.successors.foldl (lexicalSuccessor state) (entry, queue)
    lexicalWalk f budget w.1 w.2

/-- `prove_lexical_checks`. -/
def proveLexicalChecks (f : VerifiedFunction) : CompileOutcome Unit :=
  let localCount := f.snapshot.localCount.toNat
  if f.instructions.any fun i => i.name ∈ [OpName.getLocCheck, .putLocCheck, .putLocCheckInit,
      .setLocUninitialized] then
    lexicalWalk f (satAdd (min (f.cfg.blocks.length * (localCount * 2 + 1)) usizeMax) 1)
      (OrdMap.empty.insert 0 (List.replicate localCount lexicalMayBeInitialized)) [0]
  else .ok ()

/-! ## Nodes -/

/-- The variables of the block loop of `translate`. -/
structure Translating where
  nextGuard : Nat
  nextId : Nat
  guards : List GuardSite
  boxesElided : Nat
  nextEffect : Nat
  maxStack : Nat

/-- `u32::try_from(nodes.len())`, for the id of the next node. -/
def Translating.newId (t : Translating) : CompileOutcome Nat :=
  if 2 ^ 32 ≤ t.nextId then Outcome.fail .resourceLimit else .ok t.nextId

/-- Take the next guard number and record its site. -/
def Translating.newGuard (t : Translating) (pc : Nat) (phase : DeoptPhase)
    (shape : OptimizedFrameShape) : CompileOutcome (Nat × Translating) :=
  if 2 ^ 32 ≤ t.nextGuard + 1 then Outcome.fail .resourceLimit
  else do
    let map ← identityDeoptMap t.nextGuard pc phase shape
    .ok (t.nextGuard, { t with
      nextGuard := t.nextGuard + 1
      guards := t.guards ++ [{ guard := t.nextGuard, shape, map }] })

/-- `make_guard`. -/
def makeGuard (shape : OptimizedFrameShape) (pc : Nat) (midLoop : Bool) (t : Translating) :
    CompileOutcome (OptimizedNode × Translating) := do
  let (guard, t) ← t.newGuard pc (.beforeEffect 0) shape
  let id ← t.newId
  .ok ({ id, pc, kind := .guardNumeric guard midLoop, representation := .effect,
         effect := .control, eliminated := false, bytes := [], branchTarget := none, pops := 0,
         pushes := 0, deoptGuard := some guard, op := none }, { t with nextId := id + 1 })

/-- The operations an instruction is translated to. -/
def expansions (i : Instruction) : List BytecodeOp :=
  if i.name = .tailCall then [⟨.call, effectivePop i, 1⟩, ⟨.returnOp, 1, 0⟩]
  else if i.name = .tailCallMethod then [⟨.callMethod, effectivePop i, 1⟩, ⟨.returnOp, 1, 0⟩]
  else [⟨i.name, effectivePop i, i.opcode.nPush⟩]

/-- The guard of an operation that can leave optimized code. -/
def operationGuard (shape : OptimizedFrameShape) (pc : Nat) (name : OpName) (t : Translating) :
    CompileOutcome (Option Nat × Translating) :=
  if needsDeoptGuard name then do
    let (guard, t) ← t.newGuard pc (.beforeEffect t.nextEffect) shape
    .ok (some guard, t)
  else .ok (none, t)

/-- `u16` depth after an operation. -/
def depthAfterOp (depth : Nat) (op : BytecodeOp) : CompileOutcome Nat :=
  if depth < op.pops ∨ 65536 ≤ depth - op.pops + op.pushes then Outcome.fail .invalidArtifact
  else .ok (depth - op.pops + op.pushes)

/-- The node of one operation. -/
def translateOp (shape : OptimizedFrameShape) (i : Instruction) (state : Translating × Nat)
    (op : BytecodeOp) : CompileOutcome (OptimizedNode × (Translating × Nat)) := do
  let (t, depth) := state
  let (representation, effect) ← Outcome.okOr .unsupportedOpcode (classifyOptimizedOpcode op.name)
  let (deoptGuard, t) ← operationGuard { shape with stack := depth } i.pc op.name t
  let id ← t.newId
  let depth ← depthAfterOp depth op
  .ok ({ id, pc := i.pc, kind := .bytecode op.name, representation, effect,
         eliminated := op.name ∈ [OpName.nop, .drop], bytes := i.bytes,
         branchTarget := i.targetPc, pops := op.pops, pushes := op.pushes, deoptGuard,
         op := some op },
       { t with
         nextId := id + 1
         boxesElided := t.boxesElided + (if representation ∈ [ValueRepresentation.int32, .float64]
           then 1 else 0)
         nextEffect := t.nextEffect + (if effect ≠ .pure then 1 else 0)
         maxStack := max t.maxStack depth }, depth)

/-- Run a translation step over a list, collecting what it makes. -/
def collectM {σ α β : Type} (step : σ → α → CompileOutcome (β × σ)) :
    σ → List α → CompileOutcome (List β × σ)
  | s, [] => .ok ([], s)
  | s, a :: rest => do
    let (b, s) ← step s a
    let (bs, s) ← collectM step s rest
    .ok (b :: bs, s)

def translateInstruction (shape : OptimizedFrameShape) (state : Translating × Nat)
    (i : Instruction) : CompileOutcome (List OptimizedNode × (Translating × Nat)) :=
  if 65536 ≤ effectivePop i then Outcome.fail .resourceLimit
  else collectM (translateOp shape i) state (expansions i)

def headerGuard (shape : OptimizedFrameShape) (f : VerifiedFunction) (pc : Nat) (t : Translating) :
    CompileOutcome (List OptimizedNode × Translating) :=
  if f.cfg.isLoopHeader pc then do
    let (node, t) ← makeGuard shape pc true t
    .ok ([node], t)
  else .ok ([], t)

def translateBlock (shape : OptimizedFrameShape) (f : VerifiedFunction) (depths : OrdMap Nat Nat)
    (t : Translating) (b : BasicBlock) : CompileOutcome (OptimizedBlock × Translating) := do
  let depth ← Outcome.okOr .invalidArtifact (depths.get? b.startPc)
  let (header, t) ← headerGuard shape f b.startPc t
  let (nodes, t, _) ← collectM (translateInstruction shape) (t, depth)
    (b.instructions f.instructions)
  .ok ({ startPc := b.startPc, stackDepth := depth, successors := b.successors,
         loopHeader := f.cfg.isLoopHeader b.startPc, nodes := header ++ nodes.flatten }, t)

/-- The first stage: the entry guard and the blocks. -/
structure TranslatedBlocks where
  entry : OptimizedNode
  blocks : List OptimizedBlock
  state : Translating

/-- The stage up to `rewrite_pure_expressions`. -/
def translateBlocks (fuel : Nat) (f : VerifiedFunction) : CompileOutcome TranslatedBlocks := do
  let depths ← optimizedBlockDepths fuel f
  if f.cfg.blocks.any fun b => f.cfg.isLoopHeader b.startPc &&
      ((depths.get? b.startPc).getD 1 ≠ 0) then Outcome.fail .unsupportedOpcode
  else do
    proveLexicalChecks f
    let shape : OptimizedFrameShape := ⟨f.snapshot.argCount.toNat, f.snapshot.localCount.toNat, 0⟩
    let (entry, t) ← makeGuard shape 0 false
      { nextGuard := 0, nextId := 0, guards := [], boxesElided := 0, nextEffect := 1, maxStack := 0 }
    let (blocks, state) ← collectM (translateBlock shape f depths) t f.cfg.blocks
    .ok { entry, blocks, state }

end QuickJit
