import Mathlib
import QuickJit.Lib.OrdMap
import QuickJit.Bytecode.Opcode

/-
  The data the verifier works on (`bytecode/mod.rs`, the types of
  `bytecode/verify.rs` and `bytecode/stack.rs`).

  A snapshot owns one function's bytecode, its slot counts and the metadata a
  caller may attach. The counts are `u16` in the source and `UInt16` here, and a
  program counter of the bytecode is a `u32` (`bytecode_lt`). The descriptor fields and snapshot fields that no modelled function reads
  (constant payloads, execution flags) are left out.
-/

namespace QuickJit

/-- What the verifier knows about a slot. -/
inductive SlotKind where
  | tagged | int32 | float64 | catchOffset | uninitialized
  deriving DecidableEq, Repr

/-- A constant-pool entry: its QuickJS value tag. -/
structure ConstantDescriptor where
  tag : Int
  deriving DecidableEq, Repr

/-- `JS_TAG_INT`. -/
def jsTagInt : Int := 0

/-- `JS_TAG_FLOAT64`. -/
def jsTagFloat64 : Int := 8

/-- `size_of::<ConstantDescriptor>()`: three 32-bit words, padding and a
64-bit payload. -/
def constantDescriptorSize : Nat := 24

structure OsrPoint where
  pc : Nat
  liveSlots : List SlotKind
  deriving DecidableEq, Repr

structure DeoptPoint where
  pc : Nat
  before : List SlotKind
  after : List SlotKind
  deriving DecidableEq, Repr

structure VerifierMetadata where
  osrPoints : List OsrPoint
  deoptPoints : List DeoptPoint
  deriving DecidableEq, Repr

/-- `usize::MAX`. -/
def usizeMax : Nat := 2 ^ 64 - 1

/-- `usize::saturating_add`. -/
def satAdd (a b : Nat) : Nat := min (a + b) usizeMax

/-- `usize::saturating_mul`. -/
def satMul (a b : Nat) : Nat := min (a * b) usizeMax

def VerifierMetadata.byteLen (m : VerifierMetadata) : Nat :=
  satAdd (m.osrPoints.map fun p => 4 + p.liveSlots.length).sum
    (m.deoptPoints.map fun p => 4 + p.before.length + p.after.length).sum

structure CompileSnapshot where
  functionId : Nat
  generation : Nat
  sourceRevision : Nat
  opcodeFingerprint : Nat
  bytecode : List UInt8
  bytecode_lt : bytecode.length < 2 ^ 32
  argCount : UInt16
  localCount : UInt16
  closureCount : UInt16
  stackSize : UInt16
  constants : List ConstantDescriptor
  constantCount : Nat
  exceptionMap : List UInt8
  sourceMap : List UInt8
  metadata : VerifierMetadata
  deriving DecidableEq, Repr

/-- `abi::SOURCE_REVISION`. -/
def sourceRevision : Nat := 0x0fdea21ff1090084

/-- `abi::OPCODE_FINGERPRINT`, the fingerprint the opcode policies were audited
against. -/
def opcodeFingerprint : Nat := 0x05d5c0867521c077

inductive Resource where
  | snapshotBytes | decodedInstructions | basicBlocks | metadataBytes | workUnits
  deriving DecidableEq, Repr

structure VerifyLimits where
  maxSnapshotBytes : Nat
  maxInstructions : Nat
  maxBasicBlocks : Nat
  maxMetadataBytes : Nat
  maxWorkUnits : Nat
  deriving DecidableEq, Repr

/-- `VerifyLimits::default`. -/
def VerifyLimits.default : VerifyLimits where
  maxSnapshotBytes := 16 * 1024 * 1024
  maxInstructions := 1000000
  maxBasicBlocks := 65536
  maxMetadataBytes := 8 * 1024 * 1024
  maxWorkUnits := 10000000

/-- Why the verifier rejects; the kinds it can return. -/
inductive VerifyErrorKind where
  | decode (error : DecodeError)
  | incompatibleSnapshot
  | emptyBytecode
  | missingTerminator
  | unreachableInstruction
  | branchTargetOutOfRange (target : Int)
  | branchTargetInsideInstruction (target : Nat)
  | stackUnderflow (needed available : Nat)
  | stackSizeExceeded (declared actual : Nat)
  | inconsistentMergeHeight (expected actual : Nat)
  | incompatibleMergeKind (slot : Nat) (expected actual : SlotKind)
  | localIndexOutOfRange (index count : Nat)
  | argumentIndexOutOfRange (index count : Nat)
  | closureIndexOutOfRange (index count : Nat)
  | constantIndexOutOfRange (index count : Nat)
  | unsupportedExceptionRegion
  | osrPointNotInstructionBoundary
  | osrPointNotLoopHeader
  | incompleteOsrState
  | deoptPointNotInstructionBoundary
  | incompleteDeoptState
  | resourceLimit (resource : Resource)
  deriving DecidableEq, Repr

structure VerifyError where
  pc : Nat
  kind : VerifyErrorKind
  deriving DecidableEq, Repr

abbrev VerifyOutcome (α : Type) := Outcome VerifyError α

/-- Reject at `pc`. -/
def reject {α : Type} (pc : Nat) (kind : VerifyErrorKind) : VerifyOutcome α :=
  Outcome.fail { pc, kind }

theorem ite_reject_eq_ok {α : Type} {c : Prop} [Decidable c] {pc : Nat} {kind : VerifyErrorKind}
    {x : VerifyOutcome α} {a : α} :
    (if c then reject pc kind else x) = .ok a ↔ ¬c ∧ x = .ok a := Outcome.ite_fail_eq_ok

end QuickJit
