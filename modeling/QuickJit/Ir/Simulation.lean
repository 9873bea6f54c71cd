import QuickJit.Ir.Meanings

/-
  The graph simulates the bytecode inside a block.

  `Holds` says that a value of the graph is visible at a place of a block and
  evaluates there to what the bytecode has. `Core` relates the state of the
  node loop to the machine: every slot of the frame, every slot of the stack,
  and the shared constants and expressions hold what they stand for.
  `live_core` is the step of a node that is not eliminated.

  Arithmetic is the only operation whose result the pass shares between nodes,
  so it must depend on nothing but the operation, its contract and its operands
  (`Regular.arithmetic`). The guard of a loop header polls; the pass takes the
  frame to be the same after it (`Regular.poll`).
-/

namespace QuickJit

open Function ScalarGraph

/-- Events the graph is built for: arithmetic is a function of its operands, and
polls leave the frame alone. -/
structure Regular {V : Type} [Scalars V]
    (modes : OrdMap Nat ScalarNumericMode) (m : Machine V) (n : OptimizedNode) (e : Event V) :
    Prop where
  arithmetic : ∀ {op bop}, n.op = some op → ScalarBinaryOp.fromOpcode op.name = some bop →
    ∀ {rest a b}, m.stack = rest ++ [a, b] → e.results 0 = Scalars.arith bop (modeAt modes n.pc) a b
  poll : n.isPoll = true → e.slots = m.frame

/-! ## Values that hold -/

/-- Origins that a node `id` of the block at `pc`, whose nodes start at `lo`, can
see. -/
def ValueOrigin.Before (pc lo id : Nat) : ValueOrigin → Prop
  | .entry => False
  | .block pc' => pc' = pc
  | .node m _ => lo ≤ m ∧ m < id

/-- Value `v` is visible before node `id` and evaluates to `x`. -/
structure Holds {V : Type} (G : ScalarGraph) (pc lo id : Nat) (env : Nat → Option V) (v : Nat)
    (x : V) : Prop where
  visible : ∃ d, G.definitions[v]? = some d ∧ d.origin.Before pc lo id
  value : env v = some x

section

variable {V : Type} [Scalars V] {G : ScalarGraph} {pc lo id : Nat} {env : Nat → Option V}

theorem Holds.after {v : Nat} {x : V} (h : Holds G pc lo id env v x) (m : Machine V)
    (e : Event V) : Holds G pc lo (id + 1) (G.envAfter env id m e) v x := by
  obtain ⟨⟨value, origin⟩, hd, hbefore⟩ := h.visible
  refine ⟨⟨_, hd, ?_⟩, ?_⟩
  · cases origin with
    | entry => exact hbefore
    | block => exact hbefore
    | node m k => exact ⟨hbefore.1, Nat.lt_succ_of_lt hbefore.2⟩
  · rw [envAfter, hd]
    cases origin with
    | entry => exact h.value
    | block => exact h.value
    | node m k =>
      have hne : m ≠ id := Nat.ne_of_lt hbefore.2
      simp only [if_neg hne]
      exact h.value

theorem ScalarValue.Same.result {a b : ScalarValue} (h : a.Same b) (k : Nat) (env : Nat → Option V)
    (m : Machine V) (e : Event V) : b.result k env m e = a.result k env m e := by
  rcases h with rfl | ⟨_, _, _, _, rfl, rfl⟩ <;> rfl

/-- A value that node `id` computes holds its result after the node. -/
theorem Holds.computed {g : ScalarGraph} {v k : Nat} {value : ScalarValue} (hlo : lo ≤ id)
    (hkept : g.Kept G) (hv : g.definitions[v]? = some ⟨value, .node id k⟩) {m : Machine V}
    {e : Event V} {x : V} (hx : value.result k env m e = some x) :
    Holds G pc lo (id + 1) (G.envAfter env id m e) v x := by
  obtain ⟨⟨value', origin'⟩, hd, hbecomes⟩ := hkept v _ hv
  have horigin : origin' = .node id k := hbecomes.origin
  subst horigin
  refine ⟨⟨_, hd, hlo, Nat.lt_succ_self id⟩, ?_⟩
  rw [envAfter, hd]
  simp only [if_true]
  rw [(hbecomes.value (fun _ => by simp)).result k env m e, hx]

theorem Holds.binary {lhs rhs : Nat} {a b : V} (ha : Holds G pc lo id env lhs a)
    (hb : Holds G pc lo id env rhs b) (mode : ScalarNumericMode) (op : ScalarBinaryOp) (k : Nat)
    (m : Machine V) (e : Event V) :
    (ScalarValue.binary mode op lhs rhs).result k env m e = some (Scalars.arith op mode a b) := by
  rw [ScalarValue.result, ha.value, hb.value]
  rfl

end

/-! ## The state of the node loop and the machine -/

/-- Shared constants and expressions hold what they stand for. -/
structure TablesHold {V : Type} [Scalars V]
    (G : ScalarGraph) (pc lo id : Nat)
    (env : Nat → Option V) (shared : List (Int × Nat))
    (computed : List ((ScalarBinaryOp × ScalarNumericMode × Nat × Nat × ValueRepresentation) ×
      (Nat × Nat))) : Prop where
  constants : ∀ {c v}, (c, v) ∈ shared → Holds G pc lo id env v (Scalars.int c)
  expressions : ∀ {op mode lhs rhs representation v source},
    ((op, mode, lhs, rhs, representation), v, source) ∈ computed →
      ∃ a b, Holds G pc lo id env lhs a ∧ Holds G pc lo id env rhs b ∧
        Holds G pc lo id env v (Scalars.arith op mode a b)

/-- Every value the node loop holds on to evaluates to what it stands for. -/
structure Core {V : Type} [Scalars V]
    (G : ScalarGraph) (pc lo id : Nat) (r : Rewriting) (m : Machine V) (env : Nat → Option V) :
    Prop where
  frame : ∀ {slot v}, r.frame slot = some v → Holds G pc lo id env v (m.frame slot)
  stack : List.Forall₂ (Holds G pc lo id env) r.stack m.stack
  tables : TablesHold G pc lo id env r.constants r.expressions

section

variable {V : Type} [Scalars V]
  {G : ScalarGraph} {pc lo id : Nat} {r : Rewriting} {m : Machine V} {env : Nat → Option V}
variable {e : Event V} {n n' : OptimizedNode} {ctx : RewriteContext} {r r' : Rewriting}

theorem TablesHold.after {shared : List (Int × Nat)}
    {computed : List ((ScalarBinaryOp × ScalarNumericMode × Nat × Nat × ValueRepresentation) ×
      (Nat × Nat))} (h : TablesHold G pc lo id env shared computed) (m : Machine V)
    (e : Event V) : TablesHold G pc lo (id + 1) (G.envAfter env id m e) shared computed := by
  refine ⟨fun hc => (h.constants hc).after m e, fun hmem => ?_⟩
  obtain ⟨a, b, ha, hb, hv⟩ := h.expressions hmem
  exact ⟨a, b, ha.after m e, hb.after m e, hv.after m e⟩

theorem Core.popped (h : Core G pc lo id r m env) {op : BytecodeOp} (hpops : n.pops = op.pops) :
    List.Forall₂ (Holds G pc lo id env) (r.popped n) (m.popped op) := by
  rw [Rewriting.popped, Machine.popped, hpops, h.stack.length_eq]
  exact List.forall₂_drop _ h.stack

/-- The two values an arithmetic node pops. -/
theorem Core.popped_two (h : Core G pc lo id r m env) {lhs rhs : Nat}
    (hpopped : r.popped n = [lhs, rhs]) :
    ∃ rest a b, m.stack = rest ++ [a, b] ∧ Holds G pc lo id env lhs a ∧
      Holds G pc lo id env rhs b := by
  have hdrop := List.forall₂_drop (r.stack.length - n.pops) h.stack
  rw [show r.stack.drop (r.stack.length - n.pops) = [lhs, rhs] from hpopped] at hdrop
  cases hm : m.stack.drop (r.stack.length - n.pops) with
  | nil => rw [hm] at hdrop; cases hdrop
  | cons a tail =>
    rw [hm] at hdrop
    cases hdrop with
    | cons ha hdrop =>
      cases hdrop with
      | cons hb hdrop =>
        cases hdrop
        exact ⟨m.stack.take (r.stack.length - n.pops), a, _, by rw [← hm, List.take_append_drop], ha,
          hb⟩

/-- The value a node's result stands for. -/
def resultValue (m : Machine V) (n : OptimizedNode) (name : OpName) (e : Event V) : Option V :=
  match meaning name with
  | .load => some (m.frame (operandSlot name n.bytes))
  | .keep => m.stack.getLast?
  | .constant => (integerConstant name n.bytes).map Scalars.int
  | .bool value => some (Scalars.bool value)
  | _ => some (e.results 0)

theorem resultValue_computed (m : Machine V) (n : OptimizedNode) {name : OpName} (e : Event V)
    (h : (scalarOp name).computes = true) : resultValue m n name e = some (e.results 0) := by
  rw [scalarOp_computes] at h
  unfold resultValue
  split <;> simp_all [Meaning.isValue]

/-- The result of a node holds what it stands for; a node without one leaves its
results unknown. -/
structure ResultHolds (G : ScalarGraph) (pc lo id : Nat) (env : Nat → Option V) (value : Option V)
    (e : Event V) (result : Option Nat) : Prop where
  result_holds : ∀ {v}, result = some v → ∃ x, value = some x ∧ Holds G pc lo id env v x
  unknown : result = none → ∀ {x}, value = some x → x = e.results 0

section

variable {v : Nat} {x : V} {value : Option V}

/-- Most results are the first value the node pushes. -/
theorem ResultHolds.of_push {g g' : ScalarGraph} {result : ScalarValue} (hlo : lo ≤ id)
    (hpush : g.push (.node id 0) result = .ok (v, g')) (hkept : g'.Kept G)
    (hvalue : value = some x) (hx : result.result 0 env m e = some x) :
    ResultHolds G pc lo (id + 1) (G.envAfter env id m e) value e (some v) := by
  refine ⟨fun hv => ?_, nofun⟩
  cases hv
  exact ⟨x, hvalue, .computed hlo hkept (push_get hpush) hx⟩

/-- A result that was there before. -/
theorem ResultHolds.of_holds (h : Holds G pc lo id env v x) (hvalue : value = some x) :
    ResultHolds G pc lo (id + 1) (G.envAfter env id m e) value e (some v) := by
  refine ⟨fun hv => ?_, nofun⟩
  cases hv
  exact ⟨x, hvalue, h.after m e⟩

omit [Scalars V] in
theorem ResultHolds.of_unknown (hvalue : value = some (e.results 0)) :
    ResultHolds G pc lo id env value e none :=
  ⟨nofun, fun _ _ hx => Option.some.inj (hx.symm.trans hvalue)⟩

end

theorem ResultOf.holds {op : BytecodeOp} {result : Option Nat} (hn : n.Made op) (hlo : lo ≤ n.id)
    (hcore : Core G pc lo n.id r m env) (hkept : r'.graph.Kept G)
    (hreg : Regular ctx.modes m n' e) (h : ResultOf ctx n r result n' r') (m' : Machine V) :
    ResultHolds G pc lo (n.id + 1) (G.envAfter env n.id m' e) (resultValue m n op.name e) e
      result := by
  have hname : ∀ {name}, n.kind = .bytecode name → name = op.name := fun hk =>
    (OptimizedNodeKind.bytecode.inj (hn.kind_eq.symm.trans hk)).symm
  have hmeaning := meaning_of_scalarOp op.name
  cases h with
  | guard hk | reuse hk => cases hn.kind_eq.symm.trans hk
  | propertyLoad hk hmem _ _ _ hpush =>
    cases hname hk
    refine .of_push hlo hpush hkept (resultValue_computed m n e ?_) rfl
    simp only [List.mem_cons, List.not_mem_nil, or_false] at hmem
    rcases hmem with h | h | h <;> rw [h] <;> rfl
  | propertyStore hk | elementStore hk =>
    exact .of_unknown (resultValue_computed m n e (by rw [← hname hk]; rfl))
  | elementLoad hk _ _ hpush =>
    exact .of_push hlo hpush hkept (resultValue_computed m n e (by rw [← hname hk]; rfl)) rfl
  | call hk hop _ _ _ _ hpush =>
    cases hname hk
    exact .of_push hlo hpush hkept (resultValue_computed m n e (by rw [hop]; rfl)) rfl
  | bool hk hop hpush =>
    cases hname hk
    simp only [hop] at hmeaning
    exact .of_push hlo hpush hkept (by rw [resultValue, hmeaning]) rfl
  | constantNone hk hop hconst =>
    cases hname hk
    simp only [hop] at hmeaning
    refine ⟨nofun, fun _ x hx => ?_⟩
    simp only [resultValue, hmeaning, hconst] at hx
    cases hx
  | constantShared hk hop hconst hmem =>
    cases hname hk
    simp only [hop] at hmeaning
    refine .of_holds (hcore.tables.constants hmem) ?_
    simp only [resultValue, hmeaning, hconst, Option.map_some]
  | constantNew hk hop hconst hpush =>
    cases hname hk
    simp only [hop] at hmeaning
    refine .of_push hlo hpush hkept ?_ rfl
    simp only [resultValue, hmeaning, hconst, Option.map_some]
  | load hk hop hslot hv =>
    cases hname hk
    simp only [hop] at hmeaning
    rw [loadSlot_eq hop hn.bytes_length] at hslot
    cases hslot
    exact .of_holds (hcore.frame hv) (by simp only [resultValue, hmeaning])
  | setSlot hk hop =>
    cases hname hk
    simp only [hop] at hmeaning
    have hvalue : resultValue m n op.name e = m.stack.getLast? := by
      simp only [resultValue, hmeaning]
    cases hlast : r.stack.getLast? with
    | none =>
      refine ⟨nofun, fun _ x hx => ?_⟩
      rw [hvalue, List.getLast?_eq_none_iff.mpr (List.length_eq_zero_iff.mp ?_)] at hx
      · cases hx
      · rw [← hcore.stack.length_eq, List.getLast?_eq_none_iff.mp hlast, List.length_nil]
    | some v =>
      obtain ⟨x, hx, hholds⟩ := forall₂_last hcore.stack hlast
      exact .of_holds hholds (hvalue.trans hx)
  | update hk hop _ hpush =>
    cases hname hk
    exact .of_push hlo hpush hkept (resultValue_computed m n e (by rw [hop]; rfl)) rfl
  | bitwise hk hop _ _ hpush | compare hk hop _ _ hpush =>
    cases hname hk
    exact .of_push hlo hpush hkept (resultValue_computed m n e (by rw [hop]; rfl)) rfl
  | binaryNew hk hop hpopped _ hpush =>
    cases hname hk
    -- The operands of the graph are those the node pops.
    obtain ⟨rest, a, b, hstack, ha, hb⟩ := hcore.popped_two hpopped
    refine .of_push hlo hpush hkept (resultValue_computed m n e (by rw [hop]; rfl)) ?_
    rw [ha.binary hb, hreg.arithmetic hn.op_eq (by rw [scalarOp_binary, hop]) hstack]
  | binaryShared hk hop hpopped _ hmem =>
    cases hname hk
    -- The shared value has the operands this node pops.
    obtain ⟨rest, a, b, hstack, ha, hb⟩ := hcore.popped_two hpopped
    obtain ⟨a', b', ha', hb', hv⟩ := hcore.tables.expressions hmem
    cases ha.value.symm.trans ha'.value
    cases hb.value.symm.trans hb'.value
    refine .of_holds hv (resultValue_computed m n e (by rw [hop]; rfl) |>.trans ?_)
    rw [hreg.arithmetic hn.op_eq (by rw [scalarOp_binary, hop]) hstack]
  | other hk hop =>
    cases hname hk
    exact .of_unknown (resultValue_computed m n e (by rw [hop]; rfl))

/-- What a node adds to the shared constants and expressions holds. -/
theorem ResultOf.tables {op : BytecodeOp} {result : Option Nat} (hn : n.Made op) (hlo : lo ≤ n.id)
    (hcore : Core G pc lo n.id r m env) (hkept : r'.graph.Kept G)
    (hreg : Regular ctx.modes m n' e) (h : ResultOf ctx n r result n' r') (m' : Machine V) :
    TablesHold G pc lo (n.id + 1) (G.envAfter env n.id m' e) r'.constants r'.expressions := by
  have hkeep := hcore.tables.after m' e
  cases h with
  | constantNew hk hop hconst hpush =>
    refine ⟨fun hmem => ?_, hkeep.expressions⟩
    rcases List.mem_cons.mp hmem with heq | hmem
    · cases heq
      exact .computed hlo hkept (push_get hpush) rfl
    · exact hkeep.constants hmem
  | binaryNew hk hop hpopped _ hpush =>
    refine ⟨hkeep.constants, fun hmem => ?_⟩
    rcases List.mem_cons.mp hmem with heq | hmem
    · cases heq
      cases hn.kind_eq.symm.trans hk
      obtain ⟨rest, a, b, hstack, ha, hb⟩ := hcore.popped_two hpopped
      exact ⟨a, b, ha.after m' e, hb.after m' e,
        .computed hlo hkept (push_get hpush) (ha.binary hb ..)⟩
    · exact hkeep.expressions hmem
  | _ => exact hkeep

/-! ## Pushed values -/

/-- A node pushes its result and unknown values. -/
structure PlainPushed (m : Machine V) (n : OptimizedNode) (op : BytecodeOp) (e : Event V) : Prop where
  length_eq : (m.pushed n op e).length = op.pushes
  get : ∀ {k x}, (m.pushed n op e)[k]? = some x →
    x = if k = 0 then (resultValue m n op.name e).getD (e.results 0) else e.results k

theorem PlainPushed.nil {op : BytecodeOp} (hn : n.Made op)
    (hcount : (meaning op.name).pushCount = some 0) (hpushed : m.pushed n op e = []) :
    PlainPushed m n op e := by
  refine ⟨by rw [hpushed, hn.pushes_of_meaning hcount]; rfl, fun hx => ?_⟩
  rw [hpushed] at hx
  cases hx

theorem PlainPushed.one {op : BytecodeOp} {x : V} (hn : n.Made op)
    (hcount : (meaning op.name).pushCount = some 1) (hpushed : m.pushed n op e = [x])
    (hvalue : resultValue m n op.name e = some x) : PlainPushed m n op e := by
  refine ⟨by rw [hpushed, hn.pushes_of_meaning hcount]; rfl, fun {k y} hy => ?_⟩
  rw [hpushed] at hy
  cases k with
  | zero =>
    rw [hvalue]
    exact (Option.some.inj hy).symm
  | succ k => cases hy

theorem plain_pushed {op : BytecodeOp} (hn : n.Made op) (hplain : plainOutput op.name = true)
    (hpops : op.pops ≤ m.stack.length) (e : Event V) :
    PlainPushed m n op e := by
  rw [plainOutput_eq] at hplain
  cases hm : meaning op.name with
  | load =>
    exact .one hn (by rw [hm]; rfl) (by simp only [Machine.pushed, hm]; rfl)
      (by simp only [resultValue, hm])
  | keep =>
    rw [hn.pops_of_meaning (by rw [hm]; rfl)] at hpops
    cases hlast : m.stack.getLast? with
    | none =>
      rw [List.getLast?_eq_none_iff.mp hlast] at hpops
      cases hpops
    | some x =>
      exact .one hn (by rw [hm]; rfl) (by simp only [Machine.pushed, hm, hlast]; rfl)
        (by simp only [resultValue, hm, hlast])
  | constant =>
    obtain ⟨c, hc⟩ := hn.integerConstant_isSome hm
    exact .one hn (by rw [hm]; rfl) (by simp only [Machine.pushed, hm, hc]; rfl)
      (by simp only [resultValue, hm, hc, Option.map_some])
  | bool value =>
    exact .one hn (by rw [hm]; rfl) (by simp only [Machine.pushed, hm]; rfl)
      (by simp only [resultValue, hm])
  | store | bump | overwrite =>
    exact .nil hn (by rw [hm]; rfl) (by simp only [Machine.pushed, hm])
  | compute =>
    have hpushed : m.pushed n op e = (List.range op.pushes).map e.results := by
      simp only [Machine.pushed, hm]
    refine ⟨by rw [hpushed, List.length_map, List.length_range], fun {k x} hx => ?_⟩
    rw [hpushed, List.getElem?_map, Option.map_eq_some_iff] at hx
    obtain ⟨k', hk', rfl⟩ := hx
    obtain ⟨hlt, rfl⟩ := List.getElem?_eq_some_iff.mp hk'
    simp only [resultValue, hm, List.getElem_range, Option.getD_some]
    split
    case isTrue h0 => rw [h0]
    case isFalse => rfl
  | loadPair | shuffle | receiver | post =>
    rw [hm] at hplain
    cases hplain

theorem ResultOf.opcode {op : BytecodeOp} {result : Option Nat} (hn : n.Made op)
    (h : ResultOf ctx n r result n' r') :
    n'.opcode? = some op.name ∨ n'.opcode? = none ∧ plainOutput op.name = true := by
  cases h with
  | binaryShared hk hop =>
    cases hn.kind_eq.symm.trans hk
    have hmeaning := scalarOp_agrees op.name
    simp only [hop, ScalarOp.agrees, Bool.and_eq_true] at hmeaning
    exact .inr ⟨rfl, hmeaning.2⟩
  | call =>
    refine .inl ?_
    split <;> exact hn.opcode
  | _ => exact .inl hn.opcode

theorem ResultOf.effect {result : Option Nat} (h : ResultOf ctx n r result n' r') :
    n'.effect = n.effect ∨ n.effect = .reentrant ∧ n'.effect = .control := by
  cases h with
  | call _ _ _ heffect =>
    split
    · exact .inr ⟨heffect, rfl⟩
    · exact .inl rfl
  | _ => exact .inl rfl

/-- A method load keeps its receiver. -/
theorem ResultOf.receiver {result : Option Nat} (hk : n.kind = .bytecode .getField2)
    (h : ResultOf ctx n r result n' r') :
    ∃ operation, r'.graph.heapOperations n.id = some operation ∧
      r.popped n = [operation.location.base] ∧ n.pops = 1 ∧ n.pushes = 2 := by
  cases h with
  | propertyLoad hk' _ hpopped harity _ _ =>
    cases hk.symm.trans hk'
    simp only [heapArity, Prod.mk.injEq] at harity
    exact ⟨_, update_self .., hpopped, harity.1, harity.2⟩
  | guard hk' | reuse hk' | propertyStore hk' | elementLoad hk' | elementStore hk' =>
    rw [hk] at hk'
    cases hk'
  | call hk' hop | bool hk' hop | constantNone hk' hop | constantShared hk' hop
  | constantNew hk' hop | load hk' hop | setSlot hk' hop | update hk' hop | bitwise hk' hop
  | compare hk' hop | binaryShared hk' hop | binaryNew hk' hop | other hk' hop =>
    cases hk.symm.trans hk'
    cases hop

/-- A postfix update keeps its input. -/
theorem ResultOf.post {result : Option Nat}
    (hk : n.kind = .bytecode .postInc ∨ n.kind = .bytecode .postDec)
    (h : ResultOf ctx n r result n' r') {v : Nat} (hv : result = some v) :
    ∃ mode input delta, r'.graph.definitions[v]? = some ⟨.update mode input delta, .node n.id 0⟩ ∧
      r.stack.getLast? = some input := by
  cases h with
  | update hk' hop hinput hpush =>
    cases hv
    refine ⟨_, _, _, push_get hpush, ?_⟩
    rw [hk'] at hk
    unfold updateInput at hinput
    rw [if_neg (by rcases hk with h | h <;> cases h <;> decide), Outcome.okOr_eq_ok] at hinput
    exact hinput
  | propertyLoad hk' hmem =>
    rw [hk'] at hk
    rcases hk with h | h <;> cases h <;> exact absurd hmem (by decide)
  | guard hk' | reuse hk' | propertyStore hk' | elementLoad hk' | elementStore hk' =>
    rw [hk'] at hk
    rcases hk with h | h <;> cases h
  | call hk' hop | bool hk' hop | constantNone hk' hop | constantShared hk' hop
  | constantNew hk' hop | load hk' hop | setSlot hk' hop | bitwise hk' hop
  | compare hk' hop | binaryShared hk' hop | binaryNew hk' hop | other hk' hop =>
    rw [hk'] at hk
    rcases hk with h | h <;> cases h <;> cases hop

/-- The values a permutation pushes. -/
theorem shuffledValues_eq_ok {shuffled : Option (List Nat)} (h : shuffledValues n r = .ok shuffled) :
    n.opcode?.bind permutation = none ∧ shuffled = none ∨
      ∃ pops order values, n.opcode?.bind permutation = some (pops, order) ∧ n.pops = pops ∧
        n.pushes = order.length ∧ shuffled = some values ∧
        values.map some = order.map fun k => (r.popped n)[k]? := by
  unfold shuffledValues at h
  split at h
  case h_1 hnone =>
    cases h
    exact .inl ⟨hnone, rfl⟩
  case h_2 pops order hperm =>
    rw [Outcome.ite_fail_eq_ok, not_or, not_not, not_not] at h
    simp only [Outcome.bind_eq_ok] at h
    obtain ⟨⟨hpops, hpushes⟩, values, hvalues, h⟩ := h
    cases h
    exact .inr ⟨pops, order, values, hperm, hpops.symm, hpushes.symm, rfl, mapM_expect hvalues⟩

theorem Core.congr (h : Core G pc lo id r m env) (hframe : r'.frame = r.frame)
    (hstack : r'.stack = r.stack) (hconstants : r'.constants = r.constants)
    (hexpressions : r'.expressions = r.expressions) : Core G pc lo id r' m env :=
  ⟨hframe ▸ h.frame, hstack ▸ h.stack, hconstants ▸ hexpressions ▸ h.tables⟩

namespace LiveStep

variable {ctx : RewriteContext} {n n' : OptimizedNode} {op : BytecodeOp}
  {r' r₁ r₂ r₃ r₄ : Rewriting} {result : Option Nat} {shuffled : Option (List Nat)}
  {definitions : List (FrameSlot × Nat)} {outputs : List Nat} {e : Event V}

variable (h : LiveStep ctx n r n' r' r₁ r₂ r₃ r₄ result shuffled definitions outputs)

include h

theorem core₁ (hcore : Core G pc lo n.id r m env) : Core G pc lo n.id r₁ m env := by
  rw [h.capture.same]
  exact hcore.congr rfl rfl rfl rfl

theorem outputs_length :
    outputs.length = n.pushes := by
  rw [h.outputs_of.length, List.length_range, h.result_of.frame.pushes]

theorem output_get {k v : Nat} (hv : outputs[k]? = some v) :
    ∃ ra rb, OutputsFrame n' r₃ ra ∧ OutputOf n' result shuffled ra k v rb ∧
      OutputsFrame n' rb r₄ := by
  have hk : k < n'.pushes := by
    rw [h.result_of.frame.pushes, ← h.outputs_length]
    exact (List.getElem?_eq_some_iff.mp hv).1
  exact h.outputs_of.output_get (List.getElem?_range hk) hv

/-- A plain node pushes what the bytecode pushes. -/
theorem plain_outputs_hold (hn : n.Made op) (hplain : plainOutput op.name = true) (hlo : lo ≤ n.id)
    (hcore : Core G pc lo n.id r m env) (hlen : n.pops ≤ r.stack.length)
    (hkept : r'.graph.Kept G) (hreg : Regular ctx.modes m n' e) (m' : Machine V) :
    List.Forall₂ (Holds G pc lo (n.id + 1) (G.envAfter env n.id m' e)) outputs
      (m.pushed n op e) := by
  have hpushed := plain_pushed hn hplain (hn.pops_eq ▸ hcore.stack.length_eq ▸ hlen) e
  have hresult := h.result_of.holds hn hlo (h.core₁ hcore) (h.grows₂.kept.trans hkept) hreg m'
  have hopcode : ∀ {name}, n'.opcode? = some name → plainOutput name = true := by
    intro name hname
    rcases h.result_of.opcode hn with hop | ⟨hop, -⟩
    · cases hop.symm.trans hname
      exact hplain
    · cases hop.symm.trans hname
  refine forall₂_of_get (by rw [h.outputs_length, hpushed.length_eq, hn.pushes_eq]) ?_
  intro k v x hv hx
  obtain ⟨ra, rb, -, hout, hafter⟩ := h.output_get hv
  rw [hpushed.get hx]
  cases hout with
  | value _ h0 hsome =>
    obtain ⟨y, hy, hholds⟩ := hresult.result_holds hsome
    rw [if_pos h0, hy]
    exact hholds
  | unknown _ hnone hpush =>
    have hgrows : ScalarGraph.Kept _ G :=
      (hafter.pushes.toGrowsAt.trans recordNode_grows).kept.trans (h.state_eq ▸ hkept)
    rw [h.id_eq] at hpush
    have hholds : Holds G pc lo (n.id + 1) (G.envAfter env n.id m' e) v (e.results k) :=
      .computed hlo hgrows (push_get hpush) rfl
    split
    case isTrue h0 =>
      cases hvalue : resultValue m n op.name e with
      | none => exact h0 ▸ hholds
      | some y =>
        rw [hresult.unknown (hnone h0) hvalue]
        exact h0 ▸ hholds
    case isFalse => exact hholds
  | receiver hname | member hname | pair hname => exact absurd (hopcode hname) (by decide)
  | post hname =>
    rcases hname with hname | hname <;> exact absurd (hopcode hname) (by decide)
  | shuffle hsome =>
    rcases shuffledValues_eq_ok h.shuffle with ⟨-, hnone⟩ | ⟨pops, order, values, hperm, -⟩
    · cases hsome.symm.trans hnone
    · rw [Option.bind_eq_some_iff] at hperm
      obtain ⟨name, hname, hperm⟩ := hperm
      have hmeaning := permutation_meaning name
      have hp := hopcode hname
      rw [hperm, Option.all_some, decide_eq_true_eq] at hmeaning
      rw [plainOutput_eq, hmeaning] at hp
      cases hp

/-- A node with an opcode of its own kind keeps it. -/
theorem opcode_eq (hn : n.Made op) (hplain : plainOutput op.name = false) :
    n'.opcode? = some op.name := by
  rcases h.result_of.opcode hn with hop | ⟨-, hplain'⟩
  · exact hop
  · cases hplain.symm.trans hplain'

theorem shuffled_outputs_hold (hn : n.Made op) {pops : Nat} {order : List Nat}
    (hperm : permutation op.name = some (pops, order)) (hcore : Core G pc lo n.id r m env)
    (m' : Machine V) :
    List.Forall₂ (Holds G pc lo (n.id + 1) (G.envAfter env n.id m' e)) outputs
      (m.pushed n op e) := by
  have hmeaning := permutation_meaning op.name
  rw [hperm, Option.all_some, decide_eq_true_eq] at hmeaning
  have hopcode := h.opcode_eq hn (by rw [plainOutput_eq, hmeaning]; rfl)
  rcases shuffledValues_eq_ok h.shuffle with ⟨hnone, -⟩ | ⟨_, _, values, hperm', hpops, hpushes,
    hsome, hvalues⟩
  · rw [hopcode, Option.bind_some, hperm] at hnone
    cases hnone
  · rw [hopcode, Option.bind_some, hperm] at hperm'
    cases hperm'
    -- The node pops what the bytecode pops.
    have hpopped : r₂.popped n' = r.popped n := by
      rw [Rewriting.popped, Rewriting.popped, h.result_of.frame.stack, h.result_of.frame.pops,
        h.capture.same]
    rw [hpopped] at hvalues
    have hpick := forall₂_pick (hcore.popped hn.pops_eq) hvalues
    have hpushed : m.pushed n op e = order.filterMap fun k => (m.popped op)[k]? := by
      simp only [Machine.pushed, hmeaning]
    rw [← hpushed] at hpick
    refine forall₂_of_get ?_ fun {k v x} hv hx => ?_
    · have hlen := congrArg List.length hvalues
      rw [List.length_map, List.length_map] at hlen
      rw [h.outputs_length, ← h.result_of.frame.pushes, hpushes, ← hlen, hpick.length_eq]
    obtain ⟨ra, rb, -, hout, -⟩ := h.output_get hv
    refine Holds.after ?_ m' e
    cases hout with
    | shuffle hsome' hget =>
      cases hsome.symm.trans hsome'
      exact forall₂_get hpick hget hx
    | value hplain | unknown hplain => cases hsome.symm.trans hplain.shuffled_none
    | receiver hname | member hname | pair hname =>
      rw [Option.some.inj (hopcode.symm.trans hname)] at hperm
      cases hperm
    | post hname =>
      rcases hname with hname | hname <;>
        (rw [Option.some.inj (hopcode.symm.trans hname)] at hperm; cases hperm)

end LiveStep

/-- A machine that pops one value, and what it pops. -/
theorem popped_one {v : Nat} (hpopped : r.popped n = [v]) :
    r.stack.getLast? = some v := by
  rw [Rewriting.popped] at hpopped
  rw [← List.take_append_drop (r.stack.length - n.pops) r.stack, hpopped, List.getLast?_concat]

namespace LiveStep

variable {ctx : RewriteContext} {n n' : OptimizedNode} {op : BytecodeOp}
  {r' r₁ r₂ r₃ r₄ : Rewriting} {result : Option Nat} {shuffled : Option (List Nat)}
  {definitions : List (FrameSlot × Nat)} {outputs : List Nat} {e : Event V}

variable (h : LiveStep ctx n r n' r' r₁ r₂ r₃ r₄ result shuffled definitions outputs)

include h

theorem receiver_outputs_hold (hn : n.Made op) (hname : op.name = .getField2) (hlo : lo ≤ n.id)
    (hcore : Core G pc lo n.id r m env) (hkept : r'.graph.Kept G)
    (hreg : Regular ctx.modes m n' e) (m' : Machine V) :
    List.Forall₂ (Holds G pc lo (n.id + 1) (G.envAfter env n.id m' e)) outputs
      (m.pushed n op e) := by
  have hopcode := h.opcode_eq hn (by rw [hname]; rfl)
  have hresult := h.result_of.holds hn hlo (h.core₁ hcore) (h.grows₂.kept.trans hkept) hreg m'
  obtain ⟨operation, hoperation, hpopped, -, hpushes⟩ :=
    h.result_of.receiver (by rw [hn.kind_eq, hname])
  obtain ⟨x₀, hx₀, hbase⟩ := forall₂_last (h.core₁ hcore).stack (popped_one hpopped)
  have hmeaning : meaning op.name = .receiver := by rw [hname]; rfl
  have hpushed : m.pushed n op e = [x₀, e.results 0] := by
    simp only [Machine.pushed, hmeaning, hx₀]
    rfl
  have hvalue : resultValue m n op.name e = some (e.results 0) := by rw [hname]; rfl
  rw [hpushed]
  refine forall₂_of_get (by rw [h.outputs_length, hpushes]; rfl) fun {k v x} hv hx => ?_
  obtain ⟨ra, rb, hbefore, hout, -⟩ := h.output_get hv
  cases hout with
  | receiver _ h0 hget =>
    subst h0
    cases hx
    rw [hbefore.pushes.heapOperations, h.define.pushes.heapOperations, h.id_eq, hoperation] at hget
    cases hget
    exact hbase.after m' e
  | member _ hne hsome =>
    obtain ⟨y, hy, hholds⟩ := hresult.result_holds hsome
    cases hvalue.symm.trans hy
    match k, hne, hx with
    | 0, hne, _ => exact absurd rfl hne
    | 1, _, hx => cases hx; exact hholds
  | value hplain | unknown hplain => exact absurd (hname ▸ hopcode) hplain.receiver
  | post hname' =>
    rcases hname' with hname' | hname' <;>
      (rw [hname] at hopcode; cases hopcode.symm.trans hname')
  | pair hname' =>
    rw [hname] at hopcode
    cases hopcode.symm.trans hname'
  | shuffle hsome =>
    rcases shuffledValues_eq_ok h.shuffle with ⟨-, hnone⟩ | ⟨_, _, _, hperm, -⟩
    · cases hsome.symm.trans hnone
    · rw [hopcode, hname] at hperm
      cases hperm

theorem post_outputs_hold (hn : n.Made op) (hname : op.name = .postInc ∨ op.name = .postDec)
    (hlo : lo ≤ n.id) (hcore : Core G pc lo n.id r m env) (hkept : r'.graph.Kept G)
    (hreg : Regular ctx.modes m n' e) (m' : Machine V) :
    List.Forall₂ (Holds G pc lo (n.id + 1) (G.envAfter env n.id m' e)) outputs
      (m.pushed n op e) := by
  have hmeaning : meaning op.name = .post := by rcases hname with h | h <;> rw [h] <;> rfl
  have hopcode := h.opcode_eq hn (by rw [plainOutput_eq, hmeaning]; rfl)
  have hresult := h.result_of.holds hn hlo (h.core₁ hcore) (h.grows₂.kept.trans hkept) hreg m'
  have hkind : n.kind = .bytecode .postInc ∨ n.kind = .bytecode .postDec := by
    rw [hn.kind_eq]
    exact hname.imp (congrArg _) (congrArg _)
  have hpushed : m.pushed n op e = m.stack.getLast?.toList ++ [e.results 0] := by
    simp only [Machine.pushed, hmeaning]
  have hvalue : resultValue m n op.name e = some (e.results 0) := by
    simp only [resultValue, hmeaning]
  have hpushes : n.pushes = 2 := hn.pushes_eq.trans (hn.pushes_of_meaning (by rw [hmeaning]; rfl))
  -- Every value pushed is the input of the update or its result.
  have hpost : ∀ {k v : Nat}, outputs[k]? = some v → ∃ x₀, m.stack.getLast? = some x₀ ∧
      Holds G pc lo (n.id + 1) (G.envAfter env n.id m' e) v
        (if k = 0 then x₀ else e.results 0) := by
    intro k v hv
    obtain ⟨ra, rb, hbefore, hout, -⟩ := h.output_get hv
    cases hout with
    | post _ hsome hget =>
      obtain ⟨mode, input, delta, hdef, hlast⟩ := h.result_of.post hkind hsome
      obtain ⟨x₀, hx₀, hinput⟩ := forall₂_last (h.core₁ hcore).stack hlast
      obtain ⟨y, hy, hholds⟩ := hresult.result_holds hsome
      cases hvalue.symm.trans hy
      have hgrows := h.define.pushes.toGrowsAt.trans hbefore.pushes.toGrowsAt
      rw [value?, hgrows.get hdef] at hget
      cases hget
      refine ⟨x₀, hx₀, ?_⟩
      by_cases h0 : k = 0
      · simp only [if_pos h0]
        exact hinput.after m' e
      · simp only [if_neg h0]
        exact hholds
    | value hplain | unknown hplain =>
      exact absurd (hopcode ▸ hname.imp (congrArg some) (congrArg some)) hplain.post
    | receiver hname' | member hname' | pair hname' =>
      rcases hname with h | h <;>
        (rw [h] at hopcode; cases hopcode.symm.trans hname')
    | shuffle hsome =>
      rcases shuffledValues_eq_ok h.shuffle with ⟨-, hnone⟩ | ⟨_, _, _, hperm, -⟩
      · cases hsome.symm.trans hnone
      · rcases hname with h | h <;>
          (rw [hopcode, h] at hperm; cases hperm)
  obtain ⟨v₀, v₁, rfl⟩ := List.length_eq_two.mp (h.outputs_length.trans hpushes)
  obtain ⟨x₀, hx₀, hinput⟩ := @hpost 0 v₀ rfl
  obtain ⟨_, _, hholds⟩ := @hpost 1 v₁ rfl
  rw [hpushed, hx₀]
  exact .cons hinput (.cons hholds .nil)

theorem pair_outputs_hold (hn : n.Made op) (hname : op.name = .getLoc0Loc1)
    (hcore : Core G pc lo n.id r m env) (hframe : r₃.frame = r.frame) (m' : Machine V) :
    List.Forall₂ (Holds G pc lo (n.id + 1) (G.envAfter env n.id m' e)) outputs
      (m.pushed n op e) := by
  have hopcode := h.opcode_eq hn (by rw [hname]; rfl)
  have hpushes : n.pushes = 2 :=
    hn.pushes_eq.trans (hn.pushes_of_meaning (by rw [hname]; rfl))
  have hpair : ∀ {k v : Nat}, outputs[k]? = some v →
      Holds G pc lo (n.id + 1) (G.envAfter env n.id m' e) v (m.frame (.loc k)) := by
    intro k v hv
    obtain ⟨ra, rb, hbefore, hout, -⟩ := h.output_get hv
    cases hout with
    | pair _ hget =>
      rw [hbefore.same, hframe] at hget
      exact (hcore.frame hget).after m' e
    | value hplain | unknown hplain => exact absurd (hname ▸ hopcode) hplain.pair
    | receiver hname' | member hname' =>
      rw [hname] at hopcode
      cases hopcode.symm.trans hname'
    | post hname' =>
      rcases hname' with hname' | hname' <;>
        (rw [hname] at hopcode; cases hopcode.symm.trans hname')
    | shuffle hsome =>
      rcases shuffledValues_eq_ok h.shuffle with ⟨-, hnone⟩ | ⟨_, _, _, hperm, -⟩
      · cases hsome.symm.trans hnone
      · rw [hopcode, hname] at hperm
        cases hperm
  have hmeaning : meaning op.name = .loadPair := by rw [hname]; rfl
  have hpushed : m.pushed n op e = [m.frame (.loc 0), m.frame (.loc 1)] := by
    simp only [Machine.pushed, hmeaning]
  rw [hpushed]
  match outputs, h.outputs_length.trans hpushes, @hpair with
  | [v₀, v₁], _, hpair => exact .cons (@hpair 0 v₀ rfl) (.cons (@hpair 1 v₁ rfl) .nil)

end LiveStep

/-! ## Frames -/

theorem Machine.after_op {op : BytecodeOp} (hop : n.op = some op) (e : Event V) : m.after n e = {
      frame := m.frameAfter n op e
      stack := m.stack.take (m.stack.length - op.pops) ++ m.pushed n op e } := by
  simp only [Machine.after, hop]

theorem OptimizedNode.Made.not_writes {op : BytecodeOp} (h : n.Made op)
    (heffect : n.effect ≠ .frameWrite) : writesSlot op.name = false := by
  have hclass := writesSlot_effect op.name
  rw [h.class_eq, Option.any_some, decide_eq_true heffect, Bool.and_true] at hclass
  exact hclass

namespace LiveStep

variable {ctx : RewriteContext} {n n' : OptimizedNode} {op : BytecodeOp}
  {r' r₁ r₂ r₃ r₄ : Rewriting} {result : Option Nat} {shuffled : Option (List Nat)}
  {definitions : List (FrameSlot × Nat)} {outputs : List Nat} {e : Event V}

variable (h : LiveStep ctx n r n' r' r₁ r₂ r₃ r₄ result shuffled definitions outputs)

include h

/-- A node that writes one slot gives it what the machine does. -/
theorem written_holds (hn : n.Made op) (hlo : lo ≤ n.id) (hcore : Core G pc lo n.id r m env)
    (hkept : r'.graph.Kept G) (hreg : Regular ctx.modes m n' e) {slot : FrameSlot} {v : Nat}
    {r₅ : Rewriting} (hslot : frameWriteSlot n' = some slot)
    (hby : WrittenBy n' slot result { r₂ with expressions := [] } v r₅) (hgraph : r₅.graph.Kept G) :
    writesSlot op.name = true ∧ slot = operandSlot op.name n'.bytes ∧
      Holds G pc lo (n.id + 1) (G.envAfter env n.id (m.after n' e) e) v
        (m.frameAfter n' op e slot) := by
  obtain ⟨name, hname, hwritten⟩ := Option.bind_eq_some_iff.mp hslot
  have hopcode : n'.opcode? = some op.name := by
    rcases h.result_of.opcode hn with hop | ⟨hop, -⟩
    · exact hop
    · cases hop.symm.trans hname
  cases hopcode.symm.trans hname
  have hwrites : writesSlot op.name = true := by
    by_contra hne
    rw [writtenSlot_none (by simpa using hne)] at hwritten
    cases hwritten
  rw [h.result_of.frame.bytes, writtenSlot_eq hwrites hn.bytes_length] at hwritten
  cases hwritten
  rw [h.result_of.frame.bytes]
  refine ⟨hwrites, rfl, ?_⟩
  have hstack₂ : r₂.stack = r.stack := by rw [h.result_of.frame.stack, h.capture.same]
  have hbump := meaning_bump op.name
  have hstores := isFrameSlotStore_eq op.name
  cases hby with
  | bump hname hsome =>
    rw [hopcode, Option.some_inj, Option.some_inj] at hname
    rw [decide_eq_true hname, decide_eq_true_eq] at hbump
    have hresult := h.result_of.holds hn hlo (h.core₁ hcore) (h.grows₂.kept.trans hkept) hreg
      (m.after n' e)
    obtain ⟨x, hx, hholds⟩ := hresult.result_holds hsome
    simp only [resultValue, hbump, Option.some_inj] at hx
    simp only [Machine.frameAfter, hbump, h.result_of.frame.bytes, update_self]
    exact hx ▸ hholds
  | store _ hstore hlast =>
    rw [hopcode, Option.any_some, hstores] at hstore
    obtain ⟨x, hx, hholds⟩ := forall₂_last hcore.stack (hstack₂ ▸ hlast)
    have hframe : m.frameAfter n' op e (operandSlot op.name n.bytes) = x := by
      cases hm : meaning op.name with
      | store | keep =>
        simp only [Machine.frameAfter, hm, hx, h.result_of.frame.bytes, update_self]
      | _ => rw [hm] at hstore; cases hstore
    rw [hframe]
    exact hholds.after _ e
  | read _ _ hpush =>
    have hop : n'.op = some op := h.result_of.frame.op.trans hn.op_eq
    have hframe : (m.after n' e).frame = m.frameAfter n' op e := by rw [Machine.after_op hop]
    rw [h.id_eq] at hpush
    rw [← hframe]
    exact .computed hlo hgraph (push_get hpush) rfl

/-- The frame after a node holds the machine's. -/
theorem frame_holds (hn : n.Made op) (hlo : lo ≤ n.id) (hcore : Core G pc lo n.id r m env)
    (hkept : r'.graph.Kept G) (hreg : Regular ctx.modes m n' e) {slot : FrameSlot} {v : Nat}
    (hv : r'.frame slot = some v) :
    Holds G pc lo (n.id + 1) (G.envAfter env n.id (m.after n' e) e) v
      (m.frameAfter n' op e slot) := by
  have hop : n'.op = some op := h.result_of.frame.op.trans hn.op_eq
  have hframe₂ : r₂.frame = r.frame := by rw [h.result_of.frame.frame, h.capture.same]
  have hframe : (m.after n' e).frame = m.frameAfter n' op e := by rw [Machine.after_op hop]
  have hunchanged : n.effect ≠ .frameWrite → n'.mayChangeFrame = false → r.frame slot = some v →
      Holds G pc lo (n.id + 1) (G.envAfter env n.id (m.after n' e) e) v
        (m.frameAfter n' op e slot) := by
    intro heffect hkeep hv
    rw [Machine.frameAfter_kept e (hn.not_writes heffect) hkeep]
    exact (hcore.frame hv).after _ e
  have heffect := h.result_of.effect
  rw [h.frame_eq] at hv
  cases hdefine : h.define with
  | pure hpure =>
    rw [hframe₂] at hv
    refine hunchanged ?_ (by simp [OptimizedNode.mayChangeFrame, hpure]) hv
    rcases heffect with heq | ⟨hcall, -⟩
    · rw [← heq, hpure]
      decide
    · rw [hcall]
      decide
  | control hcontrol =>
    rw [hframe₂] at hv
    refine hunchanged ?_ (by simp [OptimizedNode.mayChangeFrame, hcontrol]) hv
    rcases heffect with heq | ⟨hcall, -⟩
    · rw [← heq, hcontrol]
      decide
    · rw [hcall]
      decide
  | @write slot₀ v₀ r₅ hwrite hslot hby =>
    obtain ⟨hwrites, rfl, hholds⟩ := h.written_holds hn hlo hcore hkept hreg hslot hby
      (h.grows₃.kept.trans hkept)
    obtain ⟨x, hx⟩ := m.frameAfter_written (n := n') e hwrites
    have hframe₅ : r₅.frame = r.frame := by cases hby <;> exact hframe₂
    replace hv : update r₅.frame (operandSlot op.name n'.bytes) (some v₀) slot = some v := hv
    by_cases hne : slot = operandSlot op.name n'.bytes
    · subst hne
      rw [update_self] at hv
      cases hv
      exact hholds
    · rw [update_of_ne hne, hframe₅] at hv
      rw [hx, update_of_ne hne]
      exact (hcore.frame hv).after _ e
  | @readAll bindings graph _ halloc =>
    have hal := allocate_eq_ok halloc
    obtain ⟨b, hb, rfl⟩ := Option.map_eq_some_iff.mp hv
    have hmem := List.mem_of_find?_eq_some hb
    have hslot := List.find?_some hb
    rw [decide_eq_true_eq] at hslot
    obtain ⟨slot', v'⟩ := b
    subst hslot
    rw [← hframe]
    have hget := hal.get hmem
    rw [h.id_eq] at hget
    exact .computed hlo (h.grows₃.kept.trans hkept) hget rfl

theorem outputs_hold (hn : n.Made op) (hlive : n.eliminated = false) (hlo : lo ≤ n.id)
    (hcore : Core G pc lo n.id r m env) (hlen : n.pops ≤ r.stack.length)
    (hkept : r'.graph.Kept G) (hreg : Regular ctx.modes m n' e) (m' : Machine V) :
    List.Forall₂ (Holds G pc lo (n.id + 1) (G.envAfter env n.id m' e)) outputs
      (m.pushed n op e) := by
  by_cases hplain : plainOutput op.name = true
  · exact h.plain_outputs_hold hn hplain hlo hcore hlen hkept hreg m'
  cases hperm : permutation op.name with
  | some p => exact h.shuffled_outputs_hold hn hperm hcore m'
  | none =>
    have hname := not_plainOutput op.name
    rw [eq_false_of_ne_true hplain, hperm] at hname
    have hmem := of_decide_eq_true hname
    simp only [List.mem_cons, List.not_mem_nil, or_false] at hmem
    rcases hmem with hname | hname | hname | hname | hname
    · exact h.receiver_outputs_hold hn hname hlo hcore hkept hreg m'
    · exact h.post_outputs_hold hn (.inl hname) hlo hcore hkept hreg m'
    · exact h.post_outputs_hold hn (.inr hname) hlo hcore hkept hreg m'
    · refine h.pair_outputs_hold hn hname hcore ?_ m'
      have hclass := hn.class_eq
      rw [hname] at hclass
      have hpure : n'.effect = .pure := by
        rcases h.result_of.effect with heq | ⟨hcall, -⟩
        · exact heq.trans (Prod.mk.inj (Option.some.inj hclass)).2.symm
        · cases (Prod.mk.inj (Option.some.inj hclass)).2.trans hcall
      have hframe₂ : r₂.frame = r.frame := by rw [h.result_of.frame.frame, h.capture.same]
      cases h.define with
      | pure => exact hframe₂
      | control heff => cases heff.symm.trans hpure
      | write heff => cases heff.symm.trans hpure
      | readAll heff =>
        rcases heff with ⟨heff, -⟩ | heff | heff <;> cases heff.symm.trans hpure
    · rw [hn.eliminated_eq, hname] at hlive
      cases hlive

/-- A node that is not eliminated keeps the graph and the machine together. -/
theorem core (hn : n.Made op) (hlive : n.eliminated = false) (hlo : lo ≤ n.id)
    (hcore : Core G pc lo n.id r m env) (hlen : n.pops ≤ r.stack.length)
    (hkept : r'.graph.Kept G) (hreg : Regular ctx.modes m n' e) :
    Core G pc lo (n.id + 1) r' (m.after n' e) (G.envAfter env n.id (m.after n' e) e) := by
  have hop : n'.op = some op := h.result_of.frame.op.trans hn.op_eq
  have hafter := Machine.after_op (m := m) hop e
  refine ⟨fun hv => ?_, ?_, ?_⟩
  · rw [show (m.after n' e).frame = m.frameAfter n' op e by rw [hafter]]
    exact h.frame_holds hn hlo hcore hkept hreg hv
  · have hbytes : m.pushed n' op e = m.pushed n op e := by
      simp only [Machine.pushed, h.result_of.frame.bytes]
    rw [h.stack_eq, show (m.after n' e).stack =
      m.stack.take (m.stack.length - op.pops) ++ m.pushed n op e by rw [hafter, ← hbytes]]
    refine List.rel_append ?_ (h.outputs_hold hn hlive hlo hcore hlen hkept hreg _)
    rw [hcore.stack.length_eq, hn.pops_eq]
    exact (List.forall₂_take _ hcore.stack).imp fun _ _ hx => hx.after _ e
  · have htables := h.result_of.tables hn hlo (h.core₁ hcore) (h.grows₂.kept.trans hkept) hreg
      (m.after n' e)
    rw [h.constants_eq, h.expressions_eq]
    rcases h.define.expressions with hnil | ⟨-, heq⟩
    · rw [hnil]
      exact ⟨htables.constants, fun hmem => (List.not_mem_nil hmem).elim⟩
    · rw [heq]
      exact htables

end LiveStep

end

end QuickJit
