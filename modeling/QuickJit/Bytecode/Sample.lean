import QuickJit.Bytecode.Verify

/-
  Opcode rows and snapshots for concrete runs.

  The generated table is a parameter of the model. `sampleTable` has the rows
  of the opcodes that the concrete programs of this development use, with the
  byte sizes, pops, pushes and operand formats QuickJS gives them, at the
  positions of the audited opcode list.
-/

namespace QuickJit

/-- The rows the concrete programs use. -/
def sampleRows : List Opcode := [
  ⟨6, .undefined, 1, 0, 1, .none⟩,
  ⟨10, .pushTrue, 1, 0, 1, .none⟩,
  ⟨14, .drop, 1, 1, 0, .none⟩,
  ⟨17, .dup, 1, 1, 2, .none⟩,
  ⟨40, .returnOp, 1, 1, 0, .none⟩,
  ⟨41, .returnUndef, 1, 0, 0, .none⟩,
  ⟨64, .getField, 5, 1, 1, .atom⟩,
  ⟨66, .putField, 5, 2, 0, .atom⟩,
  ⟨70, .getArrayEl, 1, 2, 1, .none⟩,
  ⟨72, .putArrayEl, 1, 3, 0, .none⟩,
  ⟨107, .catchOp, 5, 0, 1, .label⟩,
  ⟨142, .inc, 1, 1, 1, .none⟩,
  ⟨144, .postInc, 1, 1, 2, .none⟩,
  ⟨156, .add, 1, 2, 1, .none⟩,
  ⟨165, .lt, 1, 2, 1, .none⟩,
  ⟨186, .push0, 1, 0, 1, .noneInt⟩,
  ⟨187, .push1, 1, 0, 1, .noneInt⟩,
  ⟨203, .getLoc0, 1, 0, 1, .noneLocal⟩,
  ⟨204, .getLoc1, 1, 0, 1, .noneLocal⟩,
  ⟨205, .getLoc2, 1, 0, 1, .noneLocal⟩,
  ⟨206, .getLoc3, 1, 0, 1, .noneLocal⟩,
  ⟨207, .putLoc0, 1, 1, 0, .noneLocal⟩,
  ⟨208, .putLoc1, 1, 1, 0, .noneLocal⟩,
  ⟨209, .putLoc2, 1, 1, 0, .noneLocal⟩,
  ⟨210, .putLoc3, 1, 1, 0, .noneLocal⟩,
  ⟨215, .getArg0, 1, 0, 1, .noneArgument⟩,
  ⟨216, .getArg1, 1, 0, 1, .noneArgument⟩,
  ⟨219, .putArg0, 1, 1, 0, .noneArgument⟩,
  ⟨239, .getLength, 1, 1, 1, .none⟩,
  ⟨240, .ifFalse8, 2, 1, 0, .label8⟩,
  ⟨241, .ifTrue8, 2, 1, 0, .label8⟩,
  ⟨242, .goto8, 2, 0, 0, .label8⟩,
  ⟨244, .call0, 1, 1, 1, .nPopFixed⟩]

def sampleTable : OpcodeTable := fun k => sampleRows.find? fun row => row.id.toNat = k

/-- A snapshot of some bytecode without constants, closures or metadata, for
this build. -/
def sampleSnapshot (bytecode : List UInt8) (argCount localCount stackSize : UInt16)
    (h : bytecode.length < 2 ^ 32 := by decide) : CompileSnapshot where
  functionId := 0
  generation := 0
  sourceRevision := sourceRevision
  opcodeFingerprint := opcodeFingerprint
  bytecode := bytecode
  bytecode_lt := h
  argCount := argCount
  localCount := localCount
  closureCount := 0
  stackSize := stackSize
  constants := []
  constantCount := 0
  exceptionMap := []
  sourceMap := []
  metadata := { osrPoints := [], deoptPoints := [] }

end QuickJit
