import QuickJit.Ir.Depths

/-
  What the sharing of expressions leaves behind.

  After `rewriteExpressions` a node is as it was made, or belongs to a triple
  `load, load, arithmetic`: one that computes an expression for later use, one
  that reuses an available expression, or one that is dead together with the
  `drop` behind it. `Aligned` reads a block's nodes in order and keeps the part
  of a triple already read (`Pending`) and the available expressions. An
  expression is available from its arithmetic node on until a node with an
  effect.
-/

namespace QuickJit

variable {op : BytecodeOp} {s : ExpressionState} {rest : List OptimizedNode} {name : OpName}
  {a b c n : OptimizedNode} {modes : OrdMap Nat ScalarNumericMode}

/-! ## Operands -/

theorem scalarOp_load (name : OpName) : scalarOp name = .load →
    name ∈ [OpName.getArg, .getArg0, .getArg1, .getArg2, .getArg3, .getLoc, .getLoc8, .getLoc0,
      .getLoc1, .getLoc2, .getLoc3, .getLocCheck] := by
  cases name <;> decide

/-- Names without a digit, and those that end in 8, have the index in their
operand. -/
theorem indexedNodeOperand_eq {bytes : List UInt8}
    (h : name.lastDigit = none ∨ name.lastDigit = some 8) :
    indexedNodeOperand name bytes =
      if bytes.length = 2 then some (byteAt bytes 1)
      else if 3 ≤ bytes.length then some (wordAt bytes 1)
      else none := by
  unfold indexedNodeOperand
  rcases h with h | h
  · rw [h]
  · rw [h]
    rfl

/-- A load reads the slot its opcode names. -/
theorem loadSlot_eq {bytes : List UInt8} (h : scalarOp name = .load)
    (hlen : ∀ {shape}, standardShape name = some shape → bytes.length = shape.1) :
    loadSlot name bytes = some (operandSlot name bytes) := by
  have hname := scalarOp_load name h
  simp only [List.mem_cons, List.not_mem_nil, or_false] at hname
  rcases hname with rfl | rfl | rfl | rfl | rfl | rfl | rfl | rfl | rfl | rfl | rfl | rfl <;> first
    | rfl
    | (rw [loadSlot, indexedNodeOperand_eq (by decide), hlen rfl]; rfl)

theorem isPureLoad_scalarOp (name : OpName) : isPureLoad name = true → scalarOp name = .load := by
  cases name <;> decide

theorem isPureBinary_iff :
    isPureBinary name = true ↔ ∃ op, ScalarBinaryOp.fromOpcode name = some op := by
  unfold isPureBinary ScalarBinaryOp.fromOpcode
  split <;> simp_all

theorem OptimizedNode.Made.opcode (h : n.Made op) :
    n.opcode? = some op.name := by
  rw [opcode?, h.kind_eq]

theorem OptimizedNode.IsGuard.opcode (h : n.IsGuard) : n.opcode? = none := by
  obtain ⟨guard, midLoop, hkind⟩ := h.kind_eq
  rw [opcode?, hkind]

theorem OptimizedNode.Fresh.made (h : n.Fresh) (hname : n.opcode? = some name) :
    ∃ op, n.Made op ∧ op.name = name := by
  rcases h with hguard | ⟨op, hmade⟩
  · rw [hguard.opcode] at hname
    cases hname
  · exact ⟨op, hmade, Option.some.inj (hmade.opcode.symm.trans hname)⟩

/-! ## Triples -/

inductive TripleUse where
  | define
  | reuse
  | dead
  deriving DecidableEq

/-- The part of a triple that has been read, with the slots it loaded. -/
inductive Pending where
  | clear
  | one (use : TripleUse) (lhs : FrameSlot)
  | two (use : TripleUse) (lhs rhs : FrameSlot)
  | result
  deriving DecidableEq

/-- A load of a triple; it is removed unless the triple defines its expression. -/
def TripleLoad (use : TripleUse) (slot : FrameSlot) (n : OptimizedNode) : Prop :=
  ∃ (n₀ : OptimizedNode) (op : BytecodeOp), n₀.Made op ∧ isPureLoad op.name = true ∧
    slot = operandSlot op.name n₀.bytes ∧ n = if use = .define then n₀ else n₀.hide

/-- A key for an operation on two slots. -/
structure ExpressionKey.For (key : ExpressionKey) (modes : OrdMap Nat ScalarNumericMode)
    (op : BytecodeOp) (pc : Nat) (lhs rhs : FrameSlot) : Prop where
  opcode_eq : key.opcode = op.name
  lhs_eq : key.lhs.1 = lhs
  rhs_eq : key.rhs.1 = rhs
  mode_eq : key.numericMode = modeAt modes pc

/-- The expressions available after a node. -/
def availableAfter (available : List (ExpressionKey × Nat)) (n : OptimizedNode) :
    List (ExpressionKey × Nat) :=
  if n.effect = .pure then available else []

/-- Nodes as the sharing of expressions leaves them. -/
inductive Aligned (modes : OrdMap Nat ScalarNumericMode) :
    List (ExpressionKey × Nat) → Pending → List OptimizedNode → Prop
  | nil {available} : Aligned modes available .clear []
  | keep {available rest} {n : OptimizedNode} : n.Fresh → Aligned modes (availableAfter available n) .clear rest →
      Aligned modes available .clear (n :: rest)
  | first {available n rest use lhs} : TripleLoad use lhs n →
      Aligned modes available (.one use lhs) rest → Aligned modes available .clear (n :: rest)
  | second {available n rest use lhs rhs} : TripleLoad use rhs n →
      Aligned modes available (.two use lhs rhs) rest →
      Aligned modes available (.one use lhs) (n :: rest)
  | define {available rest lhs rhs} {n : OptimizedNode} {op : BytecodeOp} {key : ExpressionKey} :
      n.Made op → isPureBinary op.name = true →
      key.For modes op n.pc lhs rhs → Aligned modes ((key, n.id) :: available) .clear rest →
      Aligned modes available (.two .define lhs rhs) (n :: rest)
  | reuse {available rest lhs rhs source} {n : OptimizedNode} {op : BytecodeOp}
      {key : ExpressionKey} : n.Made op → isPureBinary op.name = true →
      key.For modes op n.pc lhs rhs → (key, source) ∈ available →
      Aligned modes available .clear rest →
      Aligned modes available (.two .reuse lhs rhs) (n.reuseTriple source :: rest)
  | dead {available rest lhs rhs} {n : OptimizedNode} {op : BytecodeOp} : n.Made op →
      isPureBinary op.name = true → Aligned modes available .result rest →
      Aligned modes available (.two .dead lhs rhs) (n.hide :: rest)
  | drop {available rest} {n : OptimizedNode} {op : BytecodeOp} : n.Made op → op.name = .drop →
      Aligned modes available .clear rest → Aligned modes available .result (n.hide :: rest)

/-- The three nodes of a triple as they were made. -/
def Triple (a b c : OptimizedNode) : Prop :=
  ∃ opA opB opC, a.Made opA ∧ b.Made opB ∧ c.Made opC ∧ isPureLoad opA.name = true ∧
    isPureLoad opB.name = true ∧ isPureBinary opC.name = true

theorem isTriple_made (ha : a.Fresh) (hb : b.Fresh) (hc : c.Fresh) (h : isTriple a b c = true) :
    Triple a b c := by
  simp only [isTriple, Bool.and_eq_true, Option.any_eq_true] at h
  obtain ⟨⟨⟨nameA, hA, hloadA⟩, nameB, hB, hloadB⟩, nameC, hC, hbinary⟩ := h
  obtain ⟨opA, hmadeA, rfl⟩ := ha.made hA
  obtain ⟨opB, hmadeB, rfl⟩ := hb.made hB
  obtain ⟨opC, hmadeC, rfl⟩ := hc.made hC
  exact ⟨opA, opB, opC, hmadeA, hmadeB, hmadeC, hloadA, hloadB, hbinary⟩

theorem OptimizedNode.Made.bytes_length (h : n.Made op) {shape : Nat × Nat × Nat}
    (hs : standardShape op.name = some shape) :
    n.bytes.length = shape.1 := by
  rw [← h.shape hs]

theorem ssaLoadOperand_made (hn : n.Made op) (hload : isPureLoad op.name = true)
    {operand : FrameSlot × Nat} (h : ssaLoadOperand s n = some operand) :
    operand.1 = operandSlot op.name n.bytes := by
  simp only [ssaLoadOperand, hn.opcode, Option.bind_some] at h
  split at h
  case isTrue =>
    rw [loadSlot_eq (isPureLoad_scalarOp _ hload) hn.bytes_length] at h
    cases h
    rfl
  case isFalse => cases h

theorem tripleKey_for {opA opB opC : BytecodeOp} (ha : a.Made opA) (hb : b.Made opB)
    (hc : c.Made opC) (hloadA : isPureLoad opA.name = true) (hloadB : isPureLoad opB.name = true)
    {key : ExpressionKey} (h : tripleKey modes s a b c = some key) :
    key.For modes opC c.pc (operandSlot opA.name a.bytes) (operandSlot opB.name b.bytes) := by
  unfold tripleKey at h
  split at h
  case h_1 lhs rhs opcode hlhs hrhs hopcode =>
    cases h
    exact ⟨Option.some.inj (hopcode.symm.trans hc.opcode), ssaLoadOperand_made ha hloadA hlhs,
      ssaLoadOperand_made hb hloadB hrhs, rfl⟩
  case h_2 => cases h

theorem expressionAction_triple {action : ExpressionAction}
    (h : expressionAction modes s (a :: b :: c :: rest) = action) (hstep : action ≠ .step) :
    isTriple a b c = true := by
  by_contra hne
  exact hstep (by simp [← h, expressionAction, hne])

theorem expressionAction_dead {d : OptimizedNode}
    (h : expressionAction modes s (a :: b :: c :: d :: rest) = .dead) :
    d.opcode? = some .drop := by
  by_contra hne
  simp only [expressionAction, List.head?_cons, Option.any_some, hne, decide_false] at h
  split at h
  · simp only [Bool.false_eq_true, if_false] at h
    split at h
    · cases h
    · split at h <;> cases h
  · cases h

theorem expressionAction_reuse {source : Nat}
    (h : expressionAction modes s (a :: b :: c :: rest) = .reuse source) :
    ∃ key, tripleKey modes s a b c = some key ∧ (key, source) ∈ s.expressions := by
  simp only [expressionAction] at h
  split at h
  · split at h
    · cases h
    · split at h
      · cases h
      case h_2 key hkey =>
        split at h
        case h_1 found source' hfound =>
          cases h
          have hfst := List.find?_some hfound
          simp only [decide_eq_true_eq] at hfst
          exact ⟨key, hkey, hfst ▸ List.mem_of_find?_eq_some hfound⟩
        case h_2 => cases h
  · cases h

theorem expressionAction_define {key : ExpressionKey}
    (h : expressionAction modes s (a :: b :: c :: rest) = .define key) :
    tripleKey modes s a b c = some key := by
  simp only [expressionAction] at h
  split at h
  · split at h
    · cases h
    · split at h
      · cases h
      case h_2 key' hkey =>
        split at h
        · cases h
        · cases h
          exact hkey
  · cases h

theorem classify_load (name : OpName) : isPureLoad name = true →
    classifyOptimizedOpcode name = some (.tagged, .pure) := by
  cases name <;> decide

/-- A triple without a key is stepped over from its first load, which has no
effect. -/
theorem expressionAction_skip (ha : a.Fresh) (h : expressionAction modes s (a :: rest) = .skip) :
    a.effect = .pure := by
  match rest, h with
  | b :: c :: rest, h =>
    have htriple := expressionAction_triple h (by decide)
    simp only [isTriple, Bool.and_eq_true, Option.any_eq_true] at htriple
    obtain ⟨⟨⟨name, hname, hload⟩, -⟩, -⟩ := htriple
    obtain ⟨op, hmade, rfl⟩ := ha.made hname
    have hclass := hmade.class_eq
    rw [classify_load _ hload] at hclass
    exact (congrArg Prod.snd (Option.some.inj hclass)).symm

/-- Reading the two loads of a triple leaves its arithmetic node to be read. -/
theorem Aligned.loads {available : List (ExpressionKey × Nat)} {opA opB : BytecodeOp}
    (use : TripleUse) (ha : a.Made opA) (hb : b.Made opB) (hloadA : isPureLoad opA.name = true)
    (hloadB : isPureLoad opB.name = true) (h : Aligned modes available
      (.two use (operandSlot opA.name a.bytes) (operandSlot opB.name b.bytes)) rest) :
    Aligned modes available .clear
      ((if use = .define then a else a.hide) :: (if use = .define then b else b.hide) :: rest) :=
  .first ⟨a, opA, ha, hloadA, rfl, rfl⟩ (.second ⟨b, opB, hb, hloadB, rfl, rfl⟩ h)

/-- The pass leaves aligned nodes. -/
theorem rewriteExpressions_aligned (s : ExpressionState) (nodes : List OptimizedNode)
    (hfresh : ∀ n ∈ nodes, n.Fresh) :
    Aligned modes s.expressions .clear (rewriteExpressions modes s nodes).1 := by
  fun_induction rewriteExpressions modes s nodes with
  | case1 => exact .nil
  | case2 s a b c d rest out cse dead hrest haction ih =>
    obtain ⟨ha, hb, hc, hd, hfresh⟩ : a.Fresh ∧ b.Fresh ∧ c.Fresh ∧ d.Fresh ∧
      ∀ n ∈ rest, n.Fresh := by simpa using hfresh
    obtain ⟨opA, opB, opC, hA, hB, hC, hloadA, hloadB, hbinary⟩ :=
      isTriple_made ha hb hc (expressionAction_triple haction (by decide))
    obtain ⟨opD, hD, hdrop⟩ := hd.made (expressionAction_dead haction)
    simp only [haction, hrest] at ih ⊢
    exact Aligned.loads .dead hA hB hloadA hloadB (.dead hC hbinary (.drop hD hdrop (ih hfresh)))
  | case3 s a source b c rest out cse dead hrest haction ih =>
    obtain ⟨ha, hb, hc, hfresh⟩ : a.Fresh ∧ b.Fresh ∧ c.Fresh ∧ ∀ n ∈ rest, n.Fresh := by
      simpa using hfresh
    obtain ⟨opA, opB, opC, hA, hB, hC, hloadA, hloadB, hbinary⟩ :=
      isTriple_made ha hb hc (expressionAction_triple haction (by simp))
    obtain ⟨key, hkey, hsource⟩ := expressionAction_reuse haction
    simp only [haction, hrest] at ih ⊢
    exact Aligned.loads .reuse hA hB hloadA hloadB
      (.reuse hC hbinary (tripleKey_for hA hB hC hloadA hloadB hkey) hsource (ih hfresh))
  | case4 s a key b c rest s' out cse dead hrest haction ih =>
    obtain ⟨ha, hb, hc, hfresh⟩ : a.Fresh ∧ b.Fresh ∧ c.Fresh ∧ ∀ n ∈ rest, n.Fresh := by
      simpa using hfresh
    obtain ⟨opA, opB, opC, hA, hB, hC, hloadA, hloadB, hbinary⟩ :=
      isTriple_made ha hb hc (expressionAction_triple haction (by simp))
    have hkey := expressionAction_define haction
    simp only [haction, s', hrest] at ih ⊢
    exact Aligned.loads .define hA hB hloadA hloadB
      (.define hC hbinary (tripleKey_for hA hB hC hloadA hloadB hkey) (ih hfresh))
  | case5 s a rest out cse dead hrest haction ih =>
    obtain ⟨ha, hfresh⟩ : a.Fresh ∧ ∀ n ∈ rest, n.Fresh := by simpa using hfresh
    have hpure := expressionAction_skip ha haction
    simp only [haction, hrest] at ih ⊢
    refine .keep ha ?_
    rw [availableAfter, if_pos hpure]
    exact ih hfresh
  | case6 s a rest out cse dead hrest hdead hreuse hdefine hskip ih =>
    obtain ⟨ha, hfresh⟩ : a.Fresh ∧ ∀ n ∈ rest, n.Fresh := by simpa using hfresh
    have hafter : (s.after a).expressions = availableAfter s.expressions a := by
      unfold ExpressionState.after availableAfter
      split <;> rfl
    split
    case h_1 haction => exact (hdead _ _ _ _ haction rfl).elim
    case h_2 haction => exact (hreuse _ _ _ _ haction rfl).elim
    case h_3 haction => exact (hdefine _ _ _ _ haction rfl).elim
    case h_4 haction => exact (hskip haction).elim
    case h_5 =>
      simp only [hrest, hafter] at ih ⊢
      exact .keep ha (ih hfresh)

end QuickJit
