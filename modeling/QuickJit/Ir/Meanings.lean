import QuickJit.Ir.IrOf

/-
  What the tables of the pass say about an opcode, and what the opcode means.

  The pass classifies opcodes by name in several places: the branch that makes
  the result (`scalarOp`), the effect (`classifyOptimizedOpcode`), the slot that
  is written (`writtenSlot`), the permutations of the stack. The bytecode machine
  has one table (`meaning`). The lemmas here relate them, each over all names at
  once.
-/

namespace QuickJit

variable {op : BytecodeOp} {n : OptimizedNode}

/-! ## Written slots -/

def writesSlot (name : OpName) : Bool :=
  name.isPutLoc || name.isSetLoc || name.isPutArg || name.isSetArg ||
    name ∈ [OpName.addLoc, .incLoc, .decLoc]

def Meaning.writes : Meaning → Bool
  | .store | .keep | .bump | .overwrite => true
  | _ => false

def Meaning.stores : Meaning → Bool
  | .store | .keep => true
  | _ => false

theorem writesSlot_eq (name : OpName) : writesSlot name = (meaning name).writes := by
  cases name <;> rfl

theorem isFrameSlotStore_eq (name : OpName) : isFrameSlotStore name = (meaning name).stores := by
  cases name <;> rfl

theorem writesSlot_effect (name : OpName) : (writesSlot name &&
    (classifyOptimizedOpcode name).any fun c => c.2 ≠ .frameWrite) = false := by
  cases name <;> rfl

theorem meaning_bump (name : OpName) :
    decide (meaning name = .bump) = decide (name = .incLoc ∨ name = .decLoc) := by
  cases name <;> rfl

theorem writtenSlot_none {name : OpName} {bytes : List UInt8} (h : writesSlot name = false) :
    writtenSlot name bytes = none := by
  simp only [writesSlot, Bool.or_eq_false_iff, decide_eq_false_iff_not] at h
  obtain ⟨⟨⟨⟨h₁, h₂⟩, h₃⟩, h₄⟩, h₅⟩ := h
  simp [writtenSlot, h₁, h₂, h₃, h₄, h₅]

theorem writesSlot_mem (name : OpName) : writesSlot name = true →
    name ∈ [OpName.putArg, .putArg0, .putArg1, .putArg2, .putArg3, .setArg, .setArg0, .setArg1,
      .setArg2, .setArg3, .putLoc, .putLoc0, .putLoc1, .putLoc2, .putLoc3, .setLoc, .setLoc0,
      .setLoc1, .setLoc2, .setLoc3, .putLoc8, .setLoc8, .putLocCheck, .putLocCheckInit,
      .setLocUninitialized, .incLoc, .decLoc, .addLoc] := by
  cases name <;> decide

theorem writtenSlot_eq {name : OpName} {bytes : List UInt8} (h : writesSlot name = true)
    (hlen : ∀ {shape}, standardShape name = some shape → bytes.length = shape.1) :
    writtenSlot name bytes = some (operandSlot name bytes) := by
  have hname := writesSlot_mem name h
  simp only [List.mem_cons, List.not_mem_nil, or_false] at hname
  rcases hname with rfl | rfl | rfl | rfl | rfl | rfl | rfl | rfl | rfl | rfl | rfl | rfl | rfl |
    rfl | rfl | rfl | rfl | rfl | rfl | rfl | rfl | rfl | rfl | rfl | rfl | rfl | rfl | rfl <;> first
    | rfl
    | (simp only [writtenSlot, OpName.isPutLoc, OpName.isSetLoc, OpName.isPutArg, OpName.isSetArg]
       rw [indexedNodeOperand_eq (by decide), hlen rfl]
       rfl)

/-! ## Results and pushed values -/

/-- Opcodes that push their result, if they have one, and unknown values. -/
def plainOutput : OpName → Bool
  | .getField2 | .postInc | .postDec | .getLoc0Loc1 | .drop => false
  | name => (permutation name).isNone

/-- How the branch of the pass for an opcode relates to the opcode's meaning. -/
def ScalarOp.agrees (name : OpName) : ScalarOp → Bool
  | .heap =>
    if name = .getField2 then meaning name = .receiver
    else meaning name = .compute && plainOutput name
  | .call | .bitwise _ | .compare _ | .binary _ => meaning name = .compute && plainOutput name
  | .bool value => meaning name = .bool value && plainOutput name
  | .constant => meaning name = .constant && plainOutput name
  | .load => meaning name = .load && plainOutput name
  | .setSlot => meaning name = .keep && plainOutput name
  | .update _ =>
    if name = .postInc ∨ name = .postDec then meaning name = .post
    else (meaning name = .bump || meaning name = .compute) && plainOutput name
  | .other =>
    match meaning name with
    | .store | .overwrite | .compute => plainOutput name
    | .loadPair => name = .getLoc0Loc1
    | .shuffle order => name = .drop || (permutation name).any fun p => p.2 = order
    | _ => false

theorem scalarOp_agrees (name : OpName) : (scalarOp name).agrees name = true := by
  cases name <;> rfl

/-- The branches of the pass that know the result. -/
theorem meaning_of_scalarOp (name : OpName) :
    match scalarOp name with
    | .bool value => meaning name = .bool value
    | .constant => meaning name = .constant
    | .load => meaning name = .load
    | .setSlot => meaning name = .keep
    | _ => True := by
  cases name <;> first | rfl | trivial

/-- Meanings whose result is known. -/
def Meaning.isValue : Meaning → Bool
  | .load | .keep | .constant | .bool _ => true
  | _ => false

/-- Branches of the pass whose result is unknown. -/
def ScalarOp.computes : ScalarOp → Bool
  | .bool _ | .constant | .load | .setSlot => false
  | _ => true

theorem scalarOp_computes (name : OpName) :
    (scalarOp name).computes = !(meaning name).isValue := by
  cases name <;> rfl

theorem scalarOp_binary (name : OpName) : ScalarBinaryOp.fromOpcode name =
    match scalarOp name with
    | .binary op => some op
    | _ => none := by
  cases name <;> rfl

/-- How many values a meaning pushes. -/
def Meaning.pushCount : Meaning → Option Nat
  | .load | .keep | .constant | .bool _ => some 1
  | .loadPair | .post => some 2
  | .store | .bump | .overwrite => some 0
  | .shuffle _ | .receiver | .compute => none

/-- Meanings that pop the top of the stack only. -/
def Meaning.popsTop : Meaning → Bool
  | .store | .keep | .post => true
  | _ => false

theorem standardShape_pushes (name : OpName) : ((meaning name).pushCount.all fun k =>
    (standardShape name).any fun shape => shape.2.2 = k) = true := by
  cases name <;> rfl

theorem standardShape_pops (name : OpName) : (!(meaning name).popsTop ||
    (standardShape name).any fun shape => shape.2.1 = 1) = true := by
  cases name <;> rfl

/-- Meanings that push their result and unknown values. -/
def Meaning.isPlain : Meaning → Bool
  | .loadPair | .shuffle _ | .receiver | .post => false
  | _ => true

theorem plainOutput_eq (name : OpName) : plainOutput name = (meaning name).isPlain := by
  cases name <;> rfl

theorem permutation_meaning (name : OpName) : ((permutation name).all fun p =>
    meaning name = .shuffle p.2) = true := by
  cases name <;> rfl

theorem not_plainOutput (name : OpName) : (plainOutput name || (permutation name).isSome ||
    name ∈ [OpName.getField2, .postInc, .postDec, .getLoc0Loc1, .drop]) = true := by
  cases name <;> rfl

theorem constant_mem (name : OpName) : meaning name = .constant →
    name ∈ [OpName.pushMinus1, .push0, .push1, .push2, .push3, .push4, .push5, .push6, .push7,
      .pushI8, .pushI16, .pushI32] := by
  cases name <;> decide

namespace OptimizedNode.Made

variable {n : OptimizedNode} {op : BytecodeOp}

theorem pushes_of_meaning (h : n.Made op) {k : Nat} (hk : (meaning op.name).pushCount = some k) :
    op.pushes = k := by
  have hshape := standardShape_pushes op.name
  rw [hk, Option.all_some, Option.any_eq_true] at hshape
  obtain ⟨shape, hs, hpushes⟩ := hshape
  rw [← of_decide_eq_true hpushes, ← h.shape hs]

theorem pops_of_meaning (h : n.Made op) (hpops : (meaning op.name).popsTop = true) :
    op.pops = 1 := by
  have hshape := standardShape_pops op.name
  rw [hpops, Bool.not_true, Bool.false_or, Option.any_eq_true] at hshape
  obtain ⟨shape, hs, hpops⟩ := hshape
  rw [← of_decide_eq_true hpops, ← h.shape hs]

theorem integerConstant_isSome (h : n.Made op) (hconst : meaning op.name = .constant) :
    ∃ c, integerConstant op.name n.bytes = some c := by
  have hlen : ∀ {shape}, standardShape op.name = some shape → n.bytes.length = shape.1 :=
    h.bytes_length
  have hname := constant_mem op.name hconst
  revert hlen
  generalize op.name = name at hname
  intro hlen
  simp only [List.mem_cons, List.not_mem_nil, or_false] at hname
  rcases hname with rfl | rfl | rfl | rfl | rfl | rfl | rfl | rfl | rfl | rfl | rfl | rfl <;> first
    | exact ⟨_, rfl⟩
    | exact ⟨_, by rw [integerConstant, if_pos (by rw [hlen rfl])]⟩

end OptimizedNode.Made

/-! ## The opcodes of triples -/

theorem pureLoad_facts (name : OpName) : (!isPureLoad name || (meaning name = .load &&
    ((standardShape name).any fun shape => shape.2 = (0, 1)) &&
    (classifyOptimizedOpcode name).any fun c => c.2 = .pure)) = true := by
  cases name <;> rfl

theorem pureBinary_facts (name : OpName) : (!isPureBinary name || (meaning name = .compute &&
    (standardShape name = some (1, 2, 1)) &&
    (classifyOptimizedOpcode name).any fun c => c.2 = .pure)) = true := by
  cases name <;> rfl

/-- A load has no effect and pushes one value. -/
structure OptimizedNode.LoadShape (n : OptimizedNode) (op : BytecodeOp) : Prop where
  meaning_eq : meaning op.name = .load
  pops_eq : op.pops = 0
  pushes_eq : op.pushes = 1
  effect_eq : n.effect = .pure

theorem OptimizedNode.Made.loadShape (h : n.Made op) (hload : isPureLoad op.name = true) :
    n.LoadShape op := by
  have hfacts := pureLoad_facts op.name
  rw [hload, h.class_eq] at hfacts
  simp only [Bool.not_true, Bool.false_or, Bool.and_eq_true, decide_eq_true_eq, Option.any_some,
    Option.any_eq_true] at hfacts
  obtain ⟨⟨hmeaning, shape, hs, hshape⟩, heffect⟩ := hfacts
  have hops := h.shape hs
  rw [← hops] at hshape
  exact ⟨hmeaning, (Prod.mk.inj hshape).1, (Prod.mk.inj hshape).2, heffect⟩

/-- Arithmetic has no effect, pops two values and pushes one. -/
structure OptimizedNode.BinaryShape (n : OptimizedNode) (op : BytecodeOp) : Prop where
  meaning_eq : meaning op.name = .compute
  pops_eq : op.pops = 2
  pushes_eq : op.pushes = 1
  effect_eq : n.effect = .pure

theorem OptimizedNode.Made.binaryShape (h : n.Made op) (hbinary : isPureBinary op.name = true) :
    n.BinaryShape op := by
  have hfacts := pureBinary_facts op.name
  rw [hbinary, h.class_eq] at hfacts
  simp only [Bool.not_true, Bool.false_or, Bool.and_eq_true, decide_eq_true_eq, Option.any_some]
    at hfacts
  obtain ⟨⟨hmeaning, hs⟩, heffect⟩ := hfacts
  have hops := h.shape hs
  exact ⟨hmeaning, (Prod.mk.inj (Prod.mk.inj hops).2).1, (Prod.mk.inj (Prod.mk.inj hops).2).2,
    heffect⟩

/-! ## Frames -/

section

variable {V : Type} {m : Machine V}

theorem Machine.frameAfter_kept (e : Event V) (hwrites : writesSlot op.name = false)
    (hkeep : n.mayChangeFrame = false) :
    m.frameAfter n op e = m.frame := by
  rw [writesSlot_eq] at hwrites
  simp only [frameAfter]
  split <;> simp_all [Meaning.writes]

theorem Machine.frameAfter_written (e : Event V) (hwrites : writesSlot op.name = true) :
    ∃ x, m.frameAfter n op e = Function.update m.frame (operandSlot op.name n.bytes) x := by
  rw [writesSlot_eq] at hwrites
  cases hm : meaning op.name with
  | store | keep =>
    simp only [frameAfter, hm]
    split
    · exact ⟨_, rfl⟩
    · exact ⟨_, (Function.update_eq_self _ _).symm⟩
  | bump | overwrite =>
    simp only [frameAfter, hm]
    exact ⟨_, rfl⟩
  | _ => rw [hm] at hwrites; cases hwrites

end

end QuickJit
