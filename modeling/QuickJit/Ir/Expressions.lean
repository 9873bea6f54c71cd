import QuickJit.Ir.Blocks

/-
  Value numbering of adjacent loads and arithmetic (`rewrite_pure_expressions`).

  Inside a block, `load, load, arithmetic, drop` is eliminated as a whole, and
  a second `load, load, arithmetic` of the same slots, with no effect in
  between, reuses the node that computed it first. The pass looks at the next
  three or four nodes (`expressionAction`) and rewrites them or steps over one.

  `Aligned` is what the pass leaves behind, as later passes see it: every node
  is as it was made, or belongs to an eliminated quartet, or to a reused triple
  whose source is available. A source is available from its node on until a
  node with an effect.
-/

namespace QuickJit

/-- The contract selected for the operation at `pc`. -/
def modeAt (modes : OrdMap Nat ScalarNumericMode) (pc : Nat) : ScalarNumericMode :=
  (modes.get? pc).getD .number

structure ExpressionKey where
  opcode : OpName
  lhs : FrameSlot × Nat
  rhs : FrameSlot × Nat
  representation : ValueRepresentation
  numericMode : ScalarNumericMode
  effectEpoch : Nat
  deriving DecidableEq, Repr

/-- The variables of the pass inside a block. -/
structure ExpressionState where
  expressions : List (ExpressionKey × Nat)
  slotVersions : FrameSlot → Nat
  effectEpoch : Nat

def ExpressionState.initial : ExpressionState := ⟨[], fun _ => 0, 0⟩

/-- `ssa_load_operand`: the slot a load reads and its version. -/
def ssaLoadOperand (s : ExpressionState) (n : OptimizedNode) : Option (FrameSlot × Nat) :=
  n.opcode?.bind fun name =>
    if name.isGetArg || name.isGetLoc then
      (loadSlot name n.bytes).map fun slot => (slot, s.slotVersions slot)
    else none

/-- `load, load, arithmetic`. -/
def isTriple (a b c : OptimizedNode) : Bool :=
  a.opcode?.any isPureLoad && b.opcode?.any isPureLoad && c.opcode?.any isPureBinary

/-- The key of a triple, when both slots are known. -/
def tripleKey (modes : OrdMap Nat ScalarNumericMode) (s : ExpressionState)
    (a b c : OptimizedNode) : Option ExpressionKey :=
  match ssaLoadOperand s a, ssaLoadOperand s b, c.opcode? with
  | some lhs, some rhs, some opcode =>
    some { opcode, lhs, rhs, representation := c.representation,
           numericMode := modeAt modes c.pc, effectEpoch := s.effectEpoch }
  | _, _, _ => none

inductive ExpressionAction where
  | dead
  | reuse (source : Nat)
  | define (key : ExpressionKey)
  | skip
  | step
  deriving DecidableEq, Repr

/-- What the pass does at the head of the remaining nodes. -/
def expressionAction (modes : OrdMap Nat ScalarNumericMode) (s : ExpressionState) :
    List OptimizedNode → ExpressionAction
  | a :: b :: c :: rest =>
    if isTriple a b c then
      if rest.head?.any fun d => d.opcode? = some .drop then .dead
      else
        match tripleKey modes s a b c with
        | none => .skip
        | some key =>
          match s.expressions.find? fun e => e.1 = key with
          | some (_, source) => .reuse source
          | none => .define key
    else .step
  | _ => .step

/-- The state after stepping over a node. -/
def ExpressionState.after (s : ExpressionState) (n : OptimizedNode) : ExpressionState :=
  if n.effect = .pure then s
  else {
    expressions := []
    slotVersions :=
      if n.effect = .frameWrite then
        match frameWriteSlot n with
        | some slot => Function.update s.slotVersions slot (s.slotVersions slot + 1)
        | none => fun _ => 0
      else s.slotVersions
    effectEpoch := min (s.effectEpoch + 1) (2 ^ 64 - 1) }

/-- Remove a node together with its stack effect. -/
def OptimizedNode.hide (n : OptimizedNode) : OptimizedNode :=
  { n with eliminated := true, pops := 0, pushes := 0 }

/-- Let a node push the value of `source`. -/
def OptimizedNode.reuseTriple (n : OptimizedNode) (source : Nat) : OptimizedNode :=
  { n with kind := .reuse source, pops := 0, pushes := 1 }

/-- The nodes of a block after the pass, with the numbers of reused and of
eliminated nodes. -/
def rewriteExpressions (modes : OrdMap Nat ScalarNumericMode) :
    ExpressionState → List OptimizedNode → List OptimizedNode × Nat × Nat
  | _, [] => ([], 0, 0)
  | s, a :: rest =>
    match expressionAction modes s (a :: rest), rest with
    | .dead, b :: c :: d :: rest =>
      let (out, cse, dead) := rewriteExpressions modes s rest
      (a.hide :: b.hide :: c.hide :: d.hide :: out, cse, dead + 4)
    | .reuse source, b :: c :: rest =>
      let (out, cse, dead) := rewriteExpressions modes s rest
      (a.hide :: b.hide :: c.reuseTriple source :: out, cse + 1, dead)
    | .define key, b :: c :: rest =>
      let s := { s with expressions := (key, c.id) :: s.expressions }
      let (out, cse, dead) := rewriteExpressions modes s rest
      (a :: b :: c :: out, cse, dead)
    | .skip, rest =>
      let (out, cse, dead) := rewriteExpressions modes s rest
      (a :: out, cse, dead)
    | _, rest =>
      let (out, cse, dead) := rewriteExpressions modes (s.after a) rest
      (a :: out, cse, dead)

/-- `rewrite_pure_expressions`. -/
def rewritePureExpressions (modes : OrdMap Nat ScalarNumericMode) :
    List OptimizedBlock → List OptimizedBlock × Nat × Nat
  | [] => ([], 0, 0)
  | b :: rest =>
    let (nodes, cse, dead) := rewriteExpressions modes .initial b.nodes
    let (blocks, cse', dead') := rewritePureExpressions modes rest
    ({ b with nodes } :: blocks, cse + cse', dead + dead')

end QuickJit
