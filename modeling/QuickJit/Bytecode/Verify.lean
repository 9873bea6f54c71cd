import QuickJit.Bytecode.Stack

/-
  `bytecode/verify.rs`: decode a snapshot, check its operands, build the
  control-flow graph, run the abstract interpretation and publish the states
  proved at loop headers and the innermost catch offset before each
  instruction.

  `verify` is the source's function of the same name; `table` is the generated
  opcode table and `fuel` bounds the loops the source leaves unbounded, so a
  result for some fuel is the source's result.
-/

namespace QuickJit

structure VerifiedFunction where
  snapshot : CompileSnapshot
  instructions : List Instruction
  cfg : ControlFlowGraph
  osrPoints : List OsrPoint
  exceptionHandlers : OrdMap Nat ExceptionHandler
  unreachable : OrdSet Nat
  exceptionRegions : Bool

namespace VerifiedFunction

def exceptionHandler (f : VerifiedFunction) (pc : Nat) : Option ExceptionHandler :=
  f.exceptionHandlers.get? pc

end VerifiedFunction

/-! ## Operand indices -/

inductive IndexSpace where
  | loc | argument | closure | constant
  deriving DecidableEq, Repr

/-- `indexed_operand`: the space an instruction indexes, its index and how many
slots it touches. -/
def indexedOperand (i : Instruction) : VerifyOutcome (Option (IndexSpace × Nat × Nat)) :=
  let width := if i.name = .usingDispose ∨ i.name = .usingDisposeAsync then 2 else 1
  let short (space : IndexSpace) : VerifyOutcome (Option (IndexSpace × Nat × Nat)) := do
    let index ← Outcome.expect i.name.lastDigit
    .ok (some (space, index, width))
  match i.format with
  | .atomU16 =>
    if i.name = .makeLocRef then .ok (some (.loc, i.operandU16 5, 1))
    else if i.name = .makeArgRef then .ok (some (.argument, i.operandU16 5, 1))
    else if i.name = .makeVarRefRef then .ok (some (.closure, i.operandU16 5, 1))
    else .ok none
  | .loc => .ok (some (.loc, i.operandU16 1, width))
  | .loc8 => .ok (some (.loc, i.operandU8 1, width))
  | .noneLocal => short .loc
  | .argument => .ok (some (.argument, i.operandU16 1, width))
  | .noneArgument => short .argument
  | .closure => .ok (some (.closure, i.operandU16 1, width))
  | .noneClosure => short .closure
  | .constant => .ok (some (.constant, i.operandU32 1, width))
  | .constant8 => .ok (some (.constant, i.operandU8 1, width))
  | _ => .ok none

def IndexSpace.count (snapshot : CompileSnapshot) : IndexSpace → Nat
  | .loc => snapshot.localCount.toNat
  | .argument => snapshot.argCount.toNat
  | .closure => snapshot.closureCount.toNat
  | .constant => snapshot.constantCount

def IndexSpace.outOfRange (index count : Nat) : IndexSpace → VerifyErrorKind
  | .loc => .localIndexOutOfRange index count
  | .argument => .argumentIndexOutOfRange index count
  | .closure => .closureIndexOutOfRange index count
  | .constant => .constantIndexOutOfRange index count

/-- `u32::saturating_add`. -/
def satAddU32 (a b : Nat) : Nat := min (a + b) (2 ^ 32 - 1)

def validateIndex (snapshot : CompileSnapshot) (i : Instruction) : VerifyOutcome Unit := do
  match ← indexedOperand i with
  | none => .ok ()
  | some (space, index, width) =>
    let checked := satAddU32 index (width - 1)
    let count := space.count snapshot
    if count ≤ checked then reject i.pc (space.outOfRange checked count) else .ok ()

def validateIndices (snapshot : CompileSnapshot) : List Instruction → VerifyOutcome Unit
  | [] => .ok ()
  | i :: rest => do
    validateIndex snapshot i
    validateIndices snapshot rest

/-! ## Requested metadata -/

def verifyOsrPoint (snapshot : CompileSnapshot) (pcs : OrdSet Nat) (cfg : ControlFlowGraph)
    (proof : StateProof) (point : OsrPoint) : VerifyOutcome Unit :=
  if point.pc ∉ pcs then reject point.pc .osrPointNotInstructionBoundary
  else if cfg.isLoopHeader point.pc = false then reject point.pc .osrPointNotLoopHeader
  else
    match proof.before.get? point.pc with
    | none => reject point.pc .incompleteOsrState
    | some state =>
      if point.liveSlots ≠ state.liveSlots snapshot then reject point.pc .incompleteOsrState
      else .ok ()

def verifyDeoptPoint (snapshot : CompileSnapshot) (pcs : OrdSet Nat) (proof : StateProof)
    (point : DeoptPoint) : VerifyOutcome Unit :=
  if point.pc ∉ pcs then reject point.pc .deoptPointNotInstructionBoundary
  else
    match proof.before.get? point.pc, proof.after.get? point.pc with
    | some before, some after =>
      if point.before ≠ before.liveSlots snapshot ∨ point.after ≠ after.liveSlots snapshot then
        reject point.pc .incompleteDeoptState
      else .ok ()
    | _, _ => reject point.pc .incompleteDeoptState

def verifyMetadata (snapshot : CompileSnapshot) (is : List Instruction) (cfg : ControlFlowGraph)
    (proof : StateProof) : VerifyOutcome Unit := do
  let pcs := OrdSet.ofList (is.map Instruction.pc)
  snapshot.metadata.osrPoints.foldlM (fun _ => verifyOsrPoint snapshot pcs cfg proof) ()
  snapshot.metadata.deoptPoints.foldlM (fun _ => verifyDeoptPoint snapshot pcs proof) ()

/-! ## The verifier -/

def decodeErrorPc : DecodeError → Nat
  | .unknownOpcode pc _ | .invalidOpcode pc | .truncated pc _ => pc

/-- The decoder's errors as the verifier reports them. -/
def decodeInstructions (table : OpcodeTable) (snapshot : CompileSnapshot) (limits : VerifyLimits) :
    VerifyOutcome (List Instruction) :=
  match decodeBounded table snapshot.bytecode limits.maxInstructions with
  | .ok is => .ok is
  | .error (.decode error) => reject (decodeErrorPc error) (.decode error)
  | .error (.instructionLimit pc) => reject pc (.resourceLimit .decodedInstructions)

theorem decodeInstructions_iff {table : OpcodeTable} {snapshot : CompileSnapshot}
    {limits : VerifyLimits} {is : List Instruction} :
    decodeInstructions table snapshot limits = .ok is ↔ is.length ≤ limits.maxInstructions ∧
      Encoded table 0 is ∧ is.flatMap Instruction.bytes = snapshot.bytecode := by
  refine Iff.trans ?_ decodeFrom_iff
  show _ ↔ decodeBounded table snapshot.bytecode limits.maxInstructions = .ok is
  unfold decodeInstructions
  split <;> simp_all [reject]

def snapshotBytes (snapshot : CompileSnapshot) : Nat :=
  satAdd (satAdd (satAdd snapshot.bytecode.length snapshot.exceptionMap.length)
    snapshot.sourceMap.length) (min (snapshot.constantCount * constantDescriptorSize) usizeMax)

def metadataBytes (snapshot : CompileSnapshot) : Nat :=
  satAdd (satAdd (satAdd 32 snapshot.metadata.byteLen) snapshot.exceptionMap.length)
    snapshot.sourceMap.length

/-- The loop headers whose state is published. -/
def osrPcs (cfg : ControlFlowGraph) (unreachable : OrdSet Nat) : List Nat :=
  (cfg.blocks.map BasicBlock.startPc).filter fun pc => cfg.isLoopHeader pc && pc ∉ unreachable

/-- The published state of each loop header. -/
def buildOsrPoints (snapshot : CompileSnapshot) (proof : StateProof) :
    List Nat → VerifyOutcome (List OsrPoint)
  | [] => .ok []
  | pc :: rest => do
    let state ← Outcome.okOr ⟨pc, .incompleteOsrState⟩ (proof.before.get? pc)
    let points ← buildOsrPoints snapshot proof rest
    .ok ({ pc, liveSlots := state.liveSlots snapshot } :: points)

/-- The checks that need no proof: the snapshot's build and its sizes. -/
def checkSnapshot (snapshot : CompileSnapshot) (limits : VerifyLimits) : VerifyOutcome Unit :=
  if snapshot.sourceRevision ≠ sourceRevision ∨
      snapshot.opcodeFingerprint ≠ opcodeFingerprint then reject 0 .incompatibleSnapshot
  else if limits.maxSnapshotBytes < snapshotBytes snapshot then
    reject 0 (.resourceLimit .snapshotBytes)
  else if limits.maxMetadataBytes < metadataBytes snapshot then
    reject 0 (.resourceLimit .metadataBytes)
  else .ok ()

/-- Dead code is admitted only in functions with finally blocks. -/
def checkUnreachable (is : List Instruction) (unreachable : OrdSet Nat) : VerifyOutcome Unit :=
  match unreachable.elems.head? with
  | some pc =>
    if is.any (fun i => i.name = .gosub ∨ i.name = .ret) then .ok ()
    else reject pc .unreachableInstruction
  | none => .ok ()

def checkExit (is : List Instruction) : VerifyOutcome Unit := do
  let tail ← Outcome.expect is.getLast?
  if hasValidExit tail then .ok () else reject tail.pc .missingTerminator

def exceptionRegions (is : List Instruction) (proof : StateProof) : Bool :=
  proof.handlers.values.any (fun handler => handler.resumesInFrame) ||
    is.any fun i => i.name ∈ [OpName.catchOp, .nipCatch, .gosub, .ret, .throwOp, .throwError]

/-- `verify`. -/
def verify (table : OpcodeTable) (fuel : Nat) (snapshot : CompileSnapshot) (limits : VerifyLimits) :
    VerifyOutcome VerifiedFunction := do
  checkSnapshot snapshot limits
  let is ← decodeInstructions table snapshot limits
  validateIndices snapshot is
  let cfg ← buildCfg fuel is snapshot.bytecode.length limits.maxBasicBlocks
  let proof ← prove fuel snapshot is cfg limits.maxWorkUnits
  let unreachable := OrdSet.ofList ((is.map Instruction.pc).filter fun pc => pc ∉ proof.visited)
  checkUnreachable is unreachable
  checkExit is
  verifyMetadata snapshot is cfg proof
  let osrPoints ← buildOsrPoints snapshot proof (osrPcs cfg unreachable)
  .ok { snapshot, instructions := is, cfg, osrPoints, exceptionHandlers := proof.handlers,
        unreachable, exceptionRegions := exceptionRegions is proof }

/-- What a successful verification is made of. -/
structure Verification (table : OpcodeTable) (fuel : Nat) (snapshot : CompileSnapshot)
    (limits : VerifyLimits) (f : VerifiedFunction) (proof : StateProof) : Prop where
  snapshot_eq : f.snapshot = snapshot
  decoded : decodeInstructions table snapshot limits = .ok f.instructions
  indices : validateIndices snapshot f.instructions = .ok ()
  cfg_built : buildCfg fuel f.instructions snapshot.bytecode.length limits.maxBasicBlocks =
    .ok f.cfg
  proved : prove fuel snapshot f.instructions f.cfg limits.maxWorkUnits = .ok proof
  unreachable_eq : f.unreachable =
    OrdSet.ofList ((f.instructions.map Instruction.pc).filter fun pc => pc ∉ proof.visited)
  osrPoints_built :
    buildOsrPoints snapshot proof (osrPcs f.cfg f.unreachable) = .ok f.osrPoints
  handlers_eq : f.exceptionHandlers = proof.handlers

theorem verify_eq_ok {table : OpcodeTable} {fuel : Nat} {snapshot : CompileSnapshot}
    {limits : VerifyLimits} {f : VerifiedFunction} (h : verify table fuel snapshot limits = .ok f) :
    ∃ proof, Verification table fuel snapshot limits f proof := by
  simp only [verify, Outcome.bind_eq_ok] at h
  obtain ⟨_, -, is, his, _, hindices, cfg, hcfg, proof, hproof, _, -, _, -, _, -, points, hpoints,
    hf⟩ := h
  cases hf
  exact ⟨proof, rfl, his, hindices, hcfg, hproof, rfl, hpoints, rfl⟩

end QuickJit
