import QuickJit.Lib.Outcome

/-
  Opcodes and decoded instructions (`bytecode/decode.rs`).

  The rows of the opcode table (byte size, pops, pushes, operand format) are
  generated from QuickJS's own header when the crate is built, so a table is a
  parameter here: `OpcodeTable` gives the row at each position. The names are
  the 252 names the repository lists and dispatches on
  (`bytecode/policy_audit.rs`); `name.starts_with("get_loc")` and the like are
  the families below, and `lastDigit` is the digit a compact opcode's name
  ends in.

  Correspondence (Rust ↔ Lean):
    `Opcode::name`               ↔ `Opcode.name : OpName`
    `Opcode::from_byte`          ↔ `OpcodeTable.fromByte`
    `Instruction::operand_u8` …  ↔ `Instruction.operandU8` …
    `Instruction::branch_target` ↔ `Instruction.branchTarget`
    `decode_bounded`             ↔ `decodeBounded`
  Program counters are natural numbers: the source's `u32` does not wrap in
  bytecode shorter than 2^32 bytes, as a snapshot's is. What decodes is exactly
  what `Encoded` instructions spell.
-/

namespace QuickJit

inductive OpName where
  | invalid | pushI32 | pushConst | fclosure | pushAtomValue | privateSymbol | undefined | null
  | pushThis | pushFalse | pushTrue | object | specialObject | rest | drop | nip | nip1 | dup
  | dup1 | dup2 | dup3 | insert2 | insert3 | insert4 | perm3 | perm4 | perm5 | swap | swap2
  | rot3l | rot3r | rot4l | rot5l | callConstructor | call | tailCall | callMethod
  | tailCallMethod | arrayFrom | apply | returnOp | returnUndef | checkCtorReturn | checkCtor
  | initCtor | checkBrand | addBrand | returnAsync | throwOp | throwError | eval | applyEval
  | regexp | getSuper | importOp | getVarUndef | getVar | putVar | putVarInit | getRefValue
  | putRefValue | defineVar | checkDefineVar | defineFunc | getField | getField2 | putField
  | getPrivateField | putPrivateField | definePrivateField | getArrayEl | getArrayEl2
  | putArrayEl | getSuperValue | putSuperValue | defineField | setName | setNameComputed
  | setProto | setHomeObject | defineArrayEl | append | copyDataProperties | defineMethod
  | defineMethodComputed | defineClass | defineClassComputed | getLoc | putLoc | setLoc | getArg
  | putArg | setArg | getVarRef | putVarRef | setVarRef | setLocUninitialized | getLocCheck
  | putLocCheck | putLocCheckInit | getVarRefCheck | putVarRefCheck | putVarRefCheckInit
  | closeLoc | ifFalse | ifTrue | goto | catchOp | gosub | ret | nipCatch | checkObject
  | toObject | toPropkey | toPropkey2 | withGetVar | withPutVar | withDeleteVar | withMakeRef
  | withGetRef | withGetRefUndef | makeLocRef | makeArgRef | makeVarRefRef | makeVarRef
  | forInStart | forOfStart | forAwaitOfStart | forInNext | forOfNext | iteratorGetValueDone
  | iteratorClose | iteratorNext | iteratorCall | initialYield | yield | yieldStar
  | asyncYieldStar | await | neg | plus | dec | inc | postDec | postInc | decLoc | incLoc
  | addLoc | not | lnot | typeof | delete | deleteVar | mul | div | mod | add | sub | shl | sar
  | shr | and | xor | or | pow | lt | lte | gt | gte | instanceof | inOp | eq | neq | strictEq
  | strictNeq | isUndefinedOrNull | privateIn | pushBigintI32 | usingDisposeInit | usingDispose
  | usingDisposeAsync | usingDisposeMerge | usingDisposeEnd | usingCheck | nop | pushMinus1
  | push0 | push1 | push2 | push3 | push4 | push5 | push6 | push7 | pushI8 | pushI16 | pushConst8
  | fclosure8 | pushEmptyString | getLoc8 | putLoc8 | setLoc8 | getLoc0Loc1 | getLoc0 | getLoc1
  | getLoc2 | getLoc3 | putLoc0 | putLoc1 | putLoc2 | putLoc3 | setLoc0 | setLoc1 | setLoc2
  | setLoc3 | getArg0 | getArg1 | getArg2 | getArg3 | putArg0 | putArg1 | putArg2 | putArg3
  | setArg0 | setArg1 | setArg2 | setArg3 | getVarRef0 | getVarRef1 | getVarRef2 | getVarRef3
  | putVarRef0 | putVarRef1 | putVarRef2 | putVarRef3 | setVarRef0 | setVarRef1 | setVarRef2
  | setVarRef3 | getLength | ifFalse8 | ifTrue8 | goto8 | goto16 | call0 | call1 | call2 | call3
  | isUndefined | isNull | typeofIsUndefined | typeofIsFunction
  deriving DecidableEq, Repr

namespace OpName

/-- Names that start with `get_loc`. -/
def isGetLoc : OpName → Bool
  | .getLoc | .getLocCheck | .getLoc8 | .getLoc0Loc1 | .getLoc0 | .getLoc1 | .getLoc2 | .getLoc3 => true
  | _ => false

/-- Names that start with `put_loc`. -/
def isPutLoc : OpName → Bool
  | .putLoc | .putLocCheck | .putLocCheckInit | .putLoc8 | .putLoc0 | .putLoc1 | .putLoc2
  | .putLoc3 => true
  | _ => false

/-- Names that start with `set_loc`. -/
def isSetLoc : OpName → Bool
  | .setLoc | .setLocUninitialized | .setLoc8 | .setLoc0 | .setLoc1 | .setLoc2 | .setLoc3 => true
  | _ => false

/-- Names that start with `get_arg`. -/
def isGetArg : OpName → Bool
  | .getArg | .getArg0 | .getArg1 | .getArg2 | .getArg3 => true
  | _ => false

/-- Names that start with `put_arg`. -/
def isPutArg : OpName → Bool
  | .putArg | .putArg0 | .putArg1 | .putArg2 | .putArg3 => true
  | _ => false

/-- Names that start with `set_arg`. -/
def isSetArg : OpName → Bool
  | .setArg | .setArg0 | .setArg1 | .setArg2 | .setArg3 => true
  | _ => false

/-- Names that start with `set_var_ref`. -/
def isSetVarRef : OpName → Bool
  | .setVarRef | .setVarRef0 | .setVarRef1 | .setVarRef2 | .setVarRef3 => true
  | _ => false

/-- The decimal digit a name ends in, as `short_index` reads it. -/
def lastDigit : OpName → Option Nat
  | .push0 | .getLoc0 | .putLoc0 | .setLoc0 | .getArg0 | .putArg0 | .setArg0 | .getVarRef0
  | .putVarRef0 | .setVarRef0 | .call0 => some 0
  | .nip1 | .dup1 | .pushMinus1 | .push1 | .getLoc0Loc1 | .getLoc1 | .putLoc1 | .setLoc1
  | .getArg1 | .putArg1 | .setArg1 | .getVarRef1 | .putVarRef1 | .setVarRef1 | .call1 => some 1
  | .pushI32 | .dup2 | .insert2 | .swap2 | .getField2 | .getArrayEl2 | .toPropkey2
  | .pushBigintI32 | .push2 | .getLoc2 | .putLoc2 | .setLoc2 | .getArg2 | .putArg2 | .setArg2
  | .getVarRef2 | .putVarRef2 | .setVarRef2 | .call2 => some 2
  | .dup3 | .insert3 | .perm3 | .push3 | .getLoc3 | .putLoc3 | .setLoc3 | .getArg3 | .putArg3
  | .setArg3 | .getVarRef3 | .putVarRef3 | .setVarRef3 | .call3 => some 3
  | .insert4 | .perm4 | .push4 => some 4
  | .perm5 | .push5 => some 5
  | .push6 | .pushI16 | .goto16 => some 6
  | .push7 => some 7
  | .pushI8 | .pushConst8 | .fclosure8 | .getLoc8 | .putLoc8 | .setLoc8 | .ifFalse8 | .ifTrue8
  | .goto8 => some 8
  | _ => none

end OpName

/-- How an instruction's operand bytes are read. -/
inductive OperandFormat where
  | none | noneInt | noneLocal | noneArgument | noneClosure
  | u8 | i8 | loc8 | constant8 | label8
  | u16 | i16 | label16 | nPop | nPopFixed | nPopU16
  | loc | argument | closure
  | u32 | u32x2 | i32 | constant | label
  | atom | atomU8 | atomU16 | atomLabelU8 | atomLabelU16 | labelU16
  deriving DecidableEq, Repr

/-- One row of the generated opcode table. -/
structure Opcode where
  id : UInt8
  name : OpName
  size : Nat
  nPop : Nat
  nPush : Nat
  format : OperandFormat
  deriving DecidableEq, Repr

/-- The generated opcode table: the row at each position. -/
abbrev OpcodeTable := Nat → Option Opcode

/-- `Opcode::from_byte`. -/
def OpcodeTable.fromByte (table : OpcodeTable) (value : UInt8) : Option Opcode :=
  (table value.toNat).filter (fun info => info.id = value)

/-- A decoded instruction with its bytes, opcode byte included. -/
structure Instruction where
  pc : Nat
  opcode : Opcode
  bytes : List UInt8
  deriving DecidableEq, Repr

/-- The two's complement reading of a `width`-bit word. -/
def signed (width value : Nat) : Int :=
  if value < 2 ^ (width - 1) then value else (value : Int) - 2 ^ width

/-- One byte of an operand. A table whose sizes hold its operands never reads
past the end. -/
def byteAt (bytes : List UInt8) (offset : Nat) : Nat := (bytes.getD offset 0).toNat

/-- A little-endian 16-bit word. -/
def wordAt (bytes : List UInt8) (offset : Nat) : Nat :=
  byteAt bytes offset + 256 * byteAt bytes (offset + 1)

/-- A little-endian 32-bit word. -/
def dwordAt (bytes : List UInt8) (offset : Nat) : Nat :=
  wordAt bytes offset + 65536 * wordAt bytes (offset + 2)

namespace Instruction

def size (i : Instruction) : Nat := i.bytes.length

def name (i : Instruction) : OpName := i.opcode.name

def format (i : Instruction) : OperandFormat := i.opcode.format

/-- The pc right after the instruction. -/
def nextPc (i : Instruction) : Nat := i.pc + i.size

def operandU8 (i : Instruction) (offset : Nat) : Nat := byteAt i.bytes offset

def operandU16 (i : Instruction) (offset : Nat) : Nat := wordAt i.bytes offset

def operandI16 (i : Instruction) (offset : Nat) : Int := signed 16 (wordAt i.bytes offset)

def operandU32 (i : Instruction) (offset : Nat) : Nat := dwordAt i.bytes offset

def operandI32 (i : Instruction) (offset : Nat) : Int := signed 32 (dwordAt i.bytes offset)

/-- Where the instruction may branch, relative to its operand. -/
def branchTarget (i : Instruction) : Option Int :=
  let operandPc : Int := i.pc + 1
  match i.format with
  | .label8 => some (operandPc + signed 8 (i.operandU8 1))
  | .label16 => some (operandPc + i.operandI16 1)
  | .label | .labelU16 => some (operandPc + i.operandI32 1)
  | .atomLabelU8 | .atomLabelU16 => some (operandPc + 4 + i.operandI32 5)
  | _ => none

/-- The branch target as a pc, when it is not negative. -/
def targetPc (i : Instruction) : Option Nat :=
  i.branchTarget.bind fun target => if 0 ≤ target then some target.toNat else none

end Instruction

/-! ## Decoding -/

inductive DecodeError where
  | unknownOpcode (pc : Nat) (opcode : UInt8)
  | invalidOpcode (pc : Nat)
  | truncated (pc : Nat) (size : Nat)
  deriving DecidableEq, Repr

inductive BoundedDecodeError where
  | decode (error : DecodeError)
  | instructionLimit (pc : Nat)
  deriving DecidableEq, Repr

/-- The decoding loop from `pc` on, with room for so many more instructions. -/
def decodeFrom (table : OpcodeTable) (bytes : List UInt8) :
    Nat → Nat → Except BoundedDecodeError (List Instruction)
  | 0, pc => if pc < bytes.length then .error (.instructionLimit pc) else .ok []
  | room + 1, pc =>
    if pc < bytes.length then
      match table.fromByte (bytes.getD pc 0) with
      | none => .error (.decode (.unknownOpcode pc (bytes.getD pc 0)))
      | some opcode =>
        if opcode.name = .invalid then .error (.decode (.invalidOpcode pc))
        else if bytes.length < pc + opcode.size then
          .error (.decode (.truncated pc opcode.size))
        else
          match decodeFrom table bytes room (pc + opcode.size) with
          | .error e => .error e
          | .ok rest =>
            .ok ({ pc, opcode, bytes := (bytes.drop pc).take opcode.size } :: rest)
    else .ok []

/-- `decode_bounded`. -/
def decodeBounded (table : OpcodeTable) (bytes : List UInt8) (maxInstructions : Nat) :
    Except BoundedDecodeError (List Instruction) :=
  decodeFrom table bytes maxInstructions 0

/-- The instructions cover the bytes from `pc` to `stop`, one right after the
other and each at least one byte long. -/
def Covers (stop : Nat) : Nat → List Instruction → Prop
  | pc, [] => pc = stop
  | pc, i :: rest => i.pc = pc ∧ 0 < i.size ∧ Covers stop i.nextPc rest

variable {bytes : List UInt8} {table : OpcodeTable}

/-- An opcode of size zero would be decoded again at the same place until the
room for instructions is used up. -/
theorem decodeFrom_size_pos {opcode : Opcode} {pc : Nat} (hpc : pc < bytes.length)
    (hop : table.fromByte (bytes.getD pc 0) = some opcode) (hsize : opcode.size = 0) :
    ∀ room is, decodeFrom table bytes room pc ≠ .ok is
  | 0, is => by simp [decodeFrom, hpc]
  | room + 1, is => by
    intro h
    simp only [decodeFrom, hpc, if_true, hop, hsize, Nat.add_zero] at h
    split at h
    · cases h
    · split at h
      · cases h
      · split at h
        · cases h
        case h_2 rest hrest => exact decodeFrom_size_pos hpc hop hsize room rest hrest

/-- Instructions one right after the other from `pc` on, each with the row of its
first byte and as long as the row says. -/
def Encoded (table : OpcodeTable) : Nat → List Instruction → Prop
  | _, [] => True
  | pc, i :: is => i.pc = pc ∧ 0 < i.size ∧ i.size = i.opcode.size ∧ i.opcode.name ≠ .invalid ∧
    table.fromByte (i.bytes.getD 0 0) = some i.opcode ∧ Encoded table i.nextPc is

/-- What one turn of the decoder reads. -/
theorem decodeFrom_cons {room pc : Nat} {i : Instruction} {is : List Instruction} :
    decodeFrom table bytes (room + 1) pc = .ok (i :: is) ↔
      (pc < bytes.length ∧ table.fromByte (bytes.getD pc 0) = some i.opcode ∧
        i.opcode.name ≠ .invalid ∧ pc + i.opcode.size ≤ bytes.length) ∧
      i = ⟨pc, i.opcode, (bytes.drop pc).take i.opcode.size⟩ ∧
      decodeFrom table bytes room (pc + i.opcode.size) = .ok is := by
  rw [decodeFrom]
  constructor
  · intro h
    split at h
    case isFalse => cases h
    case isTrue hpc =>
    split at h
    · cases h
    case h_2 opcode hop =>
    split at h
    · cases h
    case isFalse hvalid =>
    split at h
    · cases h
    case isFalse hfits =>
    split at h
    · cases h
    case h_2 rest hrest =>
    cases h
    exact ⟨⟨hpc, hop, hvalid, Nat.not_lt.mp hfits⟩, rfl, hrest⟩
  · rintro ⟨⟨hpc, hop, hvalid, hfits⟩, hi, hrest⟩
    simp only [if_pos hpc, hop, if_neg hvalid, if_neg (Nat.not_lt.mpr hfits), hrest, ← hi]

theorem decodeFrom_nil {room pc : Nat} :
    decodeFrom table bytes room pc = .ok [] ↔ bytes.length ≤ pc := by
  cases room with
  | zero => simp [decodeFrom]
  | succ room => grind [decodeFrom]

/-- The decoder reads the instructions whose bytes are there, if it has room. -/
theorem decodeFrom_iff : ∀ {room pc : Nat} {is : List Instruction},
    decodeFrom table bytes room pc = .ok is ↔
      is.length ≤ room ∧ Encoded table pc is ∧ is.flatMap Instruction.bytes = bytes.drop pc
  | room, pc, [] => by
    rw [decodeFrom_nil]
    simp [Encoded, eq_comm]
  | 0, pc, i :: is => by
    unfold decodeFrom
    split <;> simp
  | room + 1, pc, i :: is => by
    rw [List.flatMap_cons, List.length_cons, Nat.add_le_add_iff_right]
    constructor
    · intro h
      obtain ⟨⟨hpc, hop, hvalid, hfits⟩, hi, hrest⟩ := decodeFrom_cons.mp h
      obtain ⟨hlen, hencoded, hbytes⟩ := decodeFrom_iff.mp hrest
      have hpos : 0 < i.opcode.size :=
        Nat.pos_of_ne_zero fun h0 => decodeFrom_size_pos hpc hop h0 _ _ h
      have hib : i.bytes = (bytes.drop pc).take i.opcode.size := congrArg Instruction.bytes hi
      have hsize : i.size = i.opcode.size := by
        rw [Instruction.size, hib, List.length_take, List.length_drop]
        omega
      have hipc : i.pc = pc := congrArg Instruction.pc hi
      refine ⟨hlen, ⟨hipc, hsize ▸ hpos, hsize, hvalid, ?_, ?_⟩, ?_⟩
      · rw [hib, List.getD_eq_getElem?_getD, List.getElem?_take_of_lt hpos, List.getElem?_drop]
        exact hop
      · rw [Instruction.nextPc, hipc, hsize]
        exact hencoded
      · rw [hbytes, hib, ← List.drop_drop, List.take_append_drop]
    · rintro ⟨hlen, ⟨hipc, hpos, hsize, hvalid, hop, hencoded⟩, hbytes⟩
      have htake : (bytes.drop pc).take i.opcode.size = i.bytes := by
        rw [← hbytes, List.take_left' hsize]
      have hdrop : bytes.drop (pc + i.opcode.size) = is.flatMap Instruction.bytes := by
        rw [← List.drop_drop, ← hbytes, List.drop_left' hsize]
      have hroom : i.size ≤ bytes.length - pc := by
        rw [← List.length_drop, ← hbytes, List.length_append]
        exact Nat.le_add_right _ _
      have hfirst : bytes.getD pc 0 = i.bytes.getD 0 0 := by
        rw [← htake, List.getD_eq_getElem?_getD, List.getD_eq_getElem?_getD,
          List.getElem?_take_of_lt (hsize ▸ hpos), List.getElem?_drop, Nat.add_zero]
      rw [Instruction.nextPc, hipc, hsize] at hencoded
      refine decodeFrom_cons.mpr ⟨⟨by omega, hfirst ▸ hop, hvalid, by omega⟩, ?_, ?_⟩
      · rw [htake, ← hipc]
      · exact decodeFrom_iff.mpr ⟨hlen, hencoded, hdrop.symm⟩

theorem Encoded.covers : ∀ {is : List Instruction} {pc : Nat}, Encoded table pc is →
    Covers (pc + (is.flatMap Instruction.bytes).length) pc is
  | [], _, _ => rfl
  | i :: is, pc, ⟨hpc, hpos, _, _, _, hrest⟩ => by
    refine ⟨hpc, hpos, ?_⟩
    have hcovers := hrest.covers
    rw [Instruction.nextPc, hpc, Nat.add_assoc] at hcovers
    rw [List.flatMap_cons, List.length_append, Instruction.nextPc, hpc]
    exact hcovers

/-- The decoder accepts exactly the bytes of a list of instructions it has room
for, and gives back that list. -/
theorem decode_exact (table : OpcodeTable) (bytes : List UInt8) (maxInstructions : Nat)
    (is : List Instruction) : decodeBounded table bytes maxInstructions = .ok is ↔
      is.length ≤ maxInstructions ∧ Encoded table 0 is ∧ is.flatMap Instruction.bytes = bytes :=
  decodeFrom_iff

namespace Covers

variable {stop pc : Nat} {is : List Instruction}

theorem pc_le : ∀ {is : List Instruction} {pc : Nat}, Covers stop pc is →
    ∀ i ∈ is, pc ≤ i.pc ∧ i.pc < i.nextPc ∧ i.nextPc ≤ stop
  | [], _, _, i, hi => by cases hi
  | j :: rest, pc, ⟨hj, hpos, hrest⟩, i, hi => by
    have hn : j.nextPc = j.pc + j.size := rfl
    rcases List.mem_cons.mp hi with rfl | hi
    · refine ⟨Nat.le_of_eq hj.symm, by omega, ?_⟩
      cases rest with
      | nil => exact Nat.le_of_eq hrest
      | cons k rest =>
        have := pc_le hrest k List.mem_cons_self
        omega
    · have h := pc_le hrest i hi
      omega

theorem sorted : ∀ {is : List Instruction} {pc : Nat}, Covers stop pc is →
    is.Pairwise (fun a b => a.nextPc ≤ b.pc ∧ a.pc < b.pc)
  | [], _, _ => List.Pairwise.nil
  | j :: rest, pc, ⟨_, hpos, hrest⟩ => by
    refine List.pairwise_cons.mpr ⟨fun i hi => ?_, sorted hrest⟩
    have h := (pc_le hrest i hi).1
    have hn : j.nextPc = j.pc + j.size := rfl
    omega

/-- Consecutive instructions are adjacent in the bytecode. -/
theorem adjacent : ∀ {is : List Instruction} {pc : Nat}, Covers stop pc is →
    ∀ {k : Nat} {a b : Instruction}, is[k]? = some a → is[k + 1]? = some b → b.pc = a.nextPc
  | [], _, _, _, _, _, ha, _ => by simp at ha
  | [_], _, _, _, _, _, _, hb => by simp at hb
  | i :: j :: rest, _, ⟨_, _, hrest⟩, 0, a, b, ha, hb => by
    simp only [List.getElem?_cons_zero, Option.some.injEq, List.getElem?_cons_succ] at ha hb
    subst ha hb
    exact hrest.1
  | i :: j :: rest, _, ⟨_, _, hrest⟩, k + 1, a, b, ha, hb =>
    adjacent hrest (k := k) (by simpa using ha) (by simpa using hb)

end Covers

end QuickJit
