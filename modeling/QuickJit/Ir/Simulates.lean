import QuickJit.Ir.Simulation

/-
  The graph simulates the bytecode over a whole block.

  The sharing of expressions hides loads from the graph whose values the
  bytecode still pushes. `Simulates` relates the two with a hidden part on top
  of the machine's stack (`PendingOk`), and says what the expressions that may
  be reused evaluate to (`AvailableOk`). `Simulates.step` is one node of a
  block; its cases are those of `Aligned`.
-/

namespace QuickJit

open Machine

open ScalarGraph (GrowsAt)

variable {lhs rhs : FrameSlot} {outputs : List Nat} {source : Nat} {result : Option Nat}
  {use : TripleUse}

section

variable {V : Type} [Scalars V]

/-- The top of the stack while a triple is being read: `base` is on the graph's
stack, `hidden` is not. -/
def PendingOk (frame : FrameSlot → V) (base hidden : List V) : Pending → Prop
  | .clear => hidden = []
  | .one .define lhs => hidden = [] ∧ ∃ below, base = below ++ [frame lhs]
  | .two .define lhs rhs => hidden = [] ∧ ∃ below, base = below ++ [frame lhs, frame rhs]
  | .one _ lhs => hidden = [frame lhs]
  | .two _ lhs rhs => hidden = [frame lhs, frame rhs]
  | .result => ∃ x, hidden = [x]

/-- An expression that may be reused is the value of its node, and holds what
the slots of its key give now. -/
def AvailableOk (G : ScalarGraph)
    (pc lo id : Nat) (g : ScalarGraph) (frame : FrameSlot → V) (env : Nat → Option V)
    (available : List (ExpressionKey × Nat)) : Prop :=
  ∀ key source, (key, source) ∈ available → source < id ∧ ∃ v op,
    g.nodeValues source = some v ∧ ScalarBinaryOp.fromOpcode key.opcode = some op ∧
      Holds G pc lo id env v (Scalars.arith op key.numericMode (frame key.lhs.1) (frame key.rhs.1))

/-- The graph and the machine before node `id` of a block. -/
structure Simulates (G : ScalarGraph)
    (pc lo id : Nat) (available : List (ExpressionKey × Nat)) (pending : Pending) (r : Rewriting)
    (m : Machine V) (env : Nat → Option V) (base hidden : List V) : Prop where
  stack_eq : m.stack = base ++ hidden
  core : Core G pc lo id r ⟨m.frame, base⟩ env
  pending : PendingOk m.frame base hidden pending
  available : AvailableOk G pc lo id r.graph m.frame env available

variable {G : ScalarGraph}
  {pc lo id : Nat} {available : List (ExpressionKey × Nat)} {pending : Pending} {r r' : Rewriting}
  {m m' : Machine V} {env : Nat → Option V} {base hidden : List V} {ctx : RewriteContext}
  {n n' n₀ : OptimizedNode} {op : BytecodeOp} {e : Event V}

/-- Reusable expressions stay so over a node that leaves the frame alone. -/
theorem AvailableOk.after {g g' : ScalarGraph}
    (h : AvailableOk G pc lo id g m.frame env available) (hgrows : GrowsAt id g g')
    (hframe : m'.frame = m.frame) (e : Event V) :
    AvailableOk G pc lo (id + 1) g' m'.frame (G.envAfter env id m' e) available := by
  intro key source hmem
  obtain ⟨hlt, v, op, hv, hop, hholds⟩ := h key source hmem
  refine ⟨Nat.lt_succ_of_lt hlt, v, op, ?_, hop, ?_⟩
  · have hrow := hgrows.others source (Nat.ne_of_lt hlt)
    exact (congrArg (·.2.1) hrow).trans hv
  · rw [hframe]
    exact hholds.after m' e

/-! ## The machine at nodes without an effect -/

/-- The machine after a node that writes no slot. -/
theorem Machine.after_pure (hop : n.op = some op) (hwrites : (meaning op.name).writes = false)
    (hkeep : n.mayChangeFrame = false) (e : Event V) : m.after n e = {
      frame := m.frame
      stack := m.stack.take (m.stack.length - op.pops) ++ m.pushed n op e } := by
  rw [after_op hop, frameAfter_kept e (by rw [writesSlot_eq, hwrites]) hkeep]

theorem OptimizedNode.hide_keeps (n : OptimizedNode) : n.hide.mayChangeFrame = false := rfl

theorem OptimizedNode.pure_keeps (h : n.effect = .pure) : n.mayChangeFrame = false := by
  simp [mayChangeFrame, h]

theorem Machine.after_load (hop : n.op = some op) (hload : n₀.LoadShape op)
    (hkeep : n.mayChangeFrame = false) (e : Event V) : m.after n e = {
      frame := m.frame
      stack := m.stack ++ [m.frame (operandSlot op.name n.bytes)] } := by
  rw [after_pure hop (by rw [hload.meaning_eq]; rfl) hkeep]
  simp only [Machine.pushed, hload.meaning_eq, hload.pops_eq, Nat.sub_zero, List.take_length]

/-- The machine after arithmetic on the two values on top. -/
theorem Machine.after_binary (hop : n.op = some op) (hbinary : n₀.BinaryShape op)
    (hkeep : n.mayChangeFrame = false) {below : List V} {a b : V} (hstack : m.stack = below ++ [a, b])
    (e : Event V) : m.after n e = { frame := m.frame, stack := below ++ [e.results 0] } := by
  rw [after_pure hop (by rw [hbinary.meaning_eq]; rfl) hkeep]
  simp only [Machine.pushed, hbinary.meaning_eq, hbinary.pops_eq, hbinary.pushes_eq, hstack]
  simp

theorem Machine.after_drop (hop : n.op = some op) (hn : n₀.Made op) (hname : op.name = .drop)
    (hkeep : n.mayChangeFrame = false) {below : List V} {x : V} (hstack : m.stack = below ++ [x])
    (e : Event V) : m.after n e = { frame := m.frame, stack := below } := by
  have hmeaning : meaning op.name = .shuffle [] := by rw [hname]; rfl
  have hshape : (n₀.bytes.length, op.pops, op.pushes) = (1, 1, 0) := hn.shape (by rw [hname]; rfl)
  have hpops : op.pops = 1 := (Prod.mk.inj (Prod.mk.inj hshape).2).1
  rw [after_pure hop (by rw [hmeaning]; rfl) hkeep]
  simp only [Machine.pushed, hmeaning, hpops, hstack]
  simp

/-! ## Eliminated nodes -/

theorem EliminatedStep.core {base' : List V} (h : EliminatedStep n r r' outputs) (hlo : lo ≤ n.id)
    (hcore : Core G pc lo n.id r ⟨m.frame, base⟩ env) (hkept : r'.graph.Kept G)
    (hframe : m'.frame = m.frame)
    (hbase : base' = base.take (base.length - n.pops) ++ (List.range n.pushes).map e.results) :
    Core G pc lo (n.id + 1) r' ⟨m'.frame, base'⟩ (G.envAfter env n.id m' e) := by
  refine ⟨fun hv => ?_, ?_, ?_⟩
  · rw [h.frame_eq] at hv
    rw [hframe]
    exact (hcore.frame hv).after m' e
  · rw [h.stack_eq, hbase]
    refine List.rel_append ?_ (forall₂_of_get (by simp [h.outputs_length]) fun {k v x} hv hx => ?_)
    · rw [hcore.stack.length_eq]
      exact (List.forall₂_take _ hcore.stack).imp fun _ _ hx => hx.after m' e
    · rw [List.getElem?_map, Option.map_eq_some_iff] at hx
      obtain ⟨k', hk', rfl⟩ := hx
      obtain ⟨hlt, rfl⟩ := List.getElem?_eq_some_iff.mp hk'
      rw [List.getElem_range]
      exact .computed hlo hkept (h.outputs_get hv) rfl
  · rw [h.constants_eq, h.expressions_eq]
    exact hcore.tables.after m' e

/-- A hidden node leaves the graph's state alone. -/
theorem EliminatedStep.hidden_core (h : EliminatedStep n.hide r r' outputs) (hlo : lo ≤ n.id)
    (hcore : Core G pc lo n.id r ⟨m.frame, base⟩ env) (hkept : r'.graph.Kept G)
    (hframe : m'.frame = m.frame) :
    Core G pc lo (n.id + 1) r' ⟨m'.frame, base⟩ (G.envAfter env n.id m' e) :=
  h.core (n := n.hide) hlo hcore hkept hframe (by simp [OptimizedNode.hide])

/-! ## Guards and reused values -/

theorem ResultOf.of_guard {guard : Nat} {midLoop : Bool} (hk : n.kind = .guardNumeric guard midLoop)
    (h : ResultOf ctx n r result n' r') :
    n' = n ∧ r' = r := by
  cases h with
  | guard => exact ⟨rfl, rfl⟩
  | reuse hk' | propertyLoad hk' | propertyStore hk' | elementLoad hk' | elementStore hk'
  | call hk' | bool hk' | constantNone hk' | constantShared hk' | constantNew hk' | load hk'
  | setSlot hk' | update hk' | bitwise hk' | compare hk' | binaryShared hk' | binaryNew hk'
  | other hk' =>
    rw [hk] at hk'
    cases hk'

theorem ResultOf.of_reuse (hk : n.kind = .reuse source) (h : ResultOf ctx n r result n' r') :
    n' = n ∧ r' = r ∧ ∃ v, result = some v ∧ r.graph.nodeValues source = some v := by
  cases h with
  | reuse hk' hv =>
    cases hk.symm.trans hk'
    exact ⟨rfl, rfl, _, rfl, hv⟩
  | guard hk' | propertyLoad hk' | propertyStore hk' | elementLoad hk' | elementStore hk'
  | call hk' | bool hk' | constantNone hk' | constantShared hk' | constantNew hk' | load hk'
  | setSlot hk' | update hk' | bitwise hk' | compare hk' | binaryShared hk' | binaryNew hk'
  | other hk' =>
    rw [hk] at hk'
    cases hk'

namespace LiveStep

variable {r₁ r₂ r₃ r₄ : Rewriting} {result : Option Nat} {shuffled : Option (List Nat)}
  {definitions : List (FrameSlot × Nat)} {outputs : List Nat}

variable (h : LiveStep ctx n r n' r' r₁ r₂ r₃ r₄ result shuffled definitions outputs)

include h

theorem of_pure (hpure : n'.effect = .pure) : r₃ = r₂ := by
  cases h.define with
  | pure => rfl
  | control heff | write heff => cases heff.symm.trans hpure
  | readAll heff => rcases heff with ⟨heff, -⟩ | heff | heff <;> cases heff.symm.trans hpure

theorem of_control (hcontrol : n'.effect = .control) : r₃ = { r₂ with expressions := [] } := by
  cases h.define with
  | control => rfl
  | pure heff | write heff => cases heff.symm.trans hcontrol
  | readAll heff => rcases heff with ⟨heff, -⟩ | heff | heff <;> cases heff.symm.trans hcontrol

/-- A guard changes nothing. -/
theorem guard_core (hn : n.IsGuard) (hcore : Core G pc lo n.id r m env)
    (hreg : Regular ctx.modes m n' e) :
    n' = n ∧ m.after n' e = m ∧
      Core G pc lo (n.id + 1) r' m (G.envAfter env n.id m e) := by
  obtain ⟨guard, midLoop, hk⟩ := hn.kind_eq
  obtain ⟨rfl, rfl⟩ := h.result_of.of_guard hk
  have h₃ := h.of_control hn.effect_eq
  have houtputs : outputs = [] :=
    List.length_eq_zero_iff.mp (h.outputs_length.trans hn.pushes_eq)
  refine ⟨rfl, ?_, fun hv => ?_, ?_, ?_⟩
  · simp only [Machine.after, hn.op_eq]
    split
    case isTrue hpoll => rw [hreg.poll hpoll]
    case isFalse => rfl
  · rw [h.frame_eq, h₃] at hv
    exact ((h.core₁ hcore).frame hv).after m e
  · rw [h.stack_eq, houtputs, hn.pops_eq, List.append_nil, Nat.sub_zero, List.take_length]
    exact hcore.stack.imp fun _ _ hx => hx.after m e
  · rw [h.constants_eq, h.expressions_eq, h₃]
    exact ⟨((h.core₁ hcore).tables.after m e).constants, fun hmem => (List.not_mem_nil hmem).elim⟩

/-- The value a node that reuses another one pushes. -/
theorem reuse_outputs (hk : n.kind = .reuse source) (hpushes : n.pushes = 1) :
    ∃ v, outputs = [v] ∧ r.graph.nodeValues source = some v := by
  obtain ⟨rfl, rfl, v, rfl, hv⟩ := h.result_of.of_reuse hk
  have hopcode : n'.opcode? = none := by rw [OptimizedNode.opcode?, hk]
  obtain ⟨v₀, rfl⟩ := List.length_eq_one_iff.mp (h.outputs_length.trans hpushes)
  obtain ⟨ra, rb, -, hout, -⟩ := h.output_get (k := 0) rfl
  refine ⟨v₀, rfl, ?_⟩
  have hgraph : r₂.graph.nodeValues source = r.graph.nodeValues source := by
    cases h.capture <;> rfl
  rw [← hgraph]
  cases hout with
  | value _ _ hsome =>
    cases hsome
    exact hv
  | unknown _ hnone => cases hnone rfl
  | receiver hname | member hname | pair hname => cases hopcode.symm.trans hname
  | post hname => rcases hname with hname | hname <;> cases hopcode.symm.trans hname
  | shuffle hsome =>
    rcases shuffledValues_eq_ok h.shuffle with ⟨-, hnone⟩ | ⟨_, _, _, hperm, -⟩
    · cases hsome.symm.trans hnone
    · rw [hopcode] at hperm
      cases hperm

/-- A reused value takes the place of the two values the bytecode pops. -/
theorem reuse_core {v : Nat} {x : V} (hk : n.kind = .reuse source) (hpops : n.pops = 0)
    (hpure : n.effect = .pure) (houtputs : outputs = [v])
    (hcore : Core G pc lo n.id r ⟨m.frame, base⟩ env) (hholds : Holds G pc lo n.id env v x)
    (hframe : m'.frame = m.frame) :
    Core G pc lo (n.id + 1) r' ⟨m'.frame, base ++ [x]⟩ (G.envAfter env n.id m' e) := by
  obtain ⟨rfl, rfl, -⟩ := h.result_of.of_reuse hk
  have h₃ := h.of_pure hpure
  have hcore₁ := h.core₁ hcore
  refine ⟨fun hv => ?_, ?_, ?_⟩
  · rw [h.frame_eq, h₃] at hv
    rw [hframe]
    exact (hcore₁.frame hv).after m' e
  · rw [h.stack_eq, houtputs, hpops, Nat.sub_zero, List.take_length]
    exact List.rel_append (hcore.stack.imp fun _ _ hx => hx.after m' e)
      (.cons (hholds.after m' e) .nil)
  · rw [h.constants_eq, h.expressions_eq, h₃]
    exact hcore₁.tables.after m' e

end LiveStep

/-! ## One node of a block -/

/-- The stack after a node has the depth its operation gives it. -/
def OptimizedNode.depthAfter (n : OptimizedNode) (depth : Nat) : Nat :=
  match n.op with
  | some op => depth - op.pops + op.pushes
  | none => depth

/-- The next node, after a simulated one. -/
structure Stepped (G : ScalarGraph)
    (modes : OrdMap Nat ScalarNumericMode) (pc lo id : Nat) (ns : List OptimizedNode)
    (n' : OptimizedNode) (r' : Rewriting) (m : Machine V) (env : Nat → Option V) (e : Event V) :
    Prop where
  next : ∃ available pending base hidden, Aligned modes available pending ns ∧
    Simulates G pc lo (id + 1) available pending r' (m.after n' e)
      (G.envAfter env id (m.after n' e) e) base hidden
  depth : (m.after n' e).stack.length = n'.depthAfter m.stack.length

/-- A block's stack is all on the graph's stack unless a triple is being read. -/
theorem Simulates.clear_core
    (h : Simulates G pc lo id available .clear r m env base hidden) :
    Core G pc lo id r m env := by
  have hbase : base = m.stack := by rw [h.stack_eq, show hidden = [] from h.pending, List.append_nil]
  have hcore := h.core
  rw [hbase] at hcore
  exact hcore

theorem Core.simulates (h : Core G pc lo id r m env)
    (havailable : AvailableOk G pc lo id r.graph m.frame env available) :
    Simulates G pc lo id available .clear r m env m.stack [] :=
  ⟨(List.append_nil _).symm, h, rfl, havailable⟩

/-- Nodes with an effect forget the reusable expressions; others leave the frame
alone. -/
theorem AvailableOk.availableAfter {g g' : ScalarGraph}
    (h : AvailableOk G pc lo n.id g m.frame env available) (hgrows : GrowsAt n.id g g')
    (hframe : n.effect = .pure → m'.frame = m.frame) (e : Event V) :
    AvailableOk G pc lo (n.id + 1) g' m'.frame (G.envAfter env n.id m' e)
      (availableAfter available n) := by
  unfold QuickJit.availableAfter
  split
  case isTrue hpure => exact h.after hgrows (hframe hpure) e
  case isFalse => exact fun _ _ hmem => (List.not_mem_nil hmem).elim

variable {ns : List OptimizedNode}

namespace LiveStep

variable {r₁ r₂ r₃ r₄ : Rewriting} {result : Option Nat} {shuffled : Option (List Nat)}
  {definitions : List (FrameSlot × Nat)} {outputs : List Nat}

variable (h : LiveStep ctx n r n' r' r₁ r₂ r₃ r₄ result shuffled definitions outputs)

include h

/-- The frame stays over a node without an effect. -/
theorem pure_frame (hn : n.Made op) (hpure : n.effect = .pure) (e : Event V) :
    (m.after n' e).frame = m.frame := by
  have hop : n'.op = some op := h.result_of.frame.op.trans hn.op_eq
  have hkeep : n'.mayChangeFrame = false := by
    rcases h.result_of.effect with heq | ⟨hcall, -⟩
    · exact OptimizedNode.pure_keeps (heq.trans hpure)
    · cases hcall.symm.trans hpure
  rw [after_op hop]
  exact frameAfter_kept e (hn.not_writes (by rw [hpure]; decide)) hkeep

theorem depth (hn : n.Made op) (hcore : Core G pc lo n.id r m env) {env' : Nat → Option V}
    {id' : Nat} (hcore' : Core G pc lo id' r' m' env') :
    m'.stack.length = n'.depthAfter m.stack.length := by
  have hop : n'.op = some op := h.result_of.frame.op.trans hn.op_eq
  simp only [OptimizedNode.depthAfter, hop]
  rw [← hcore'.stack.length_eq, h.stack_eq, List.length_append, h.outputs_length, List.length_take,
    hn.pops_eq, hn.pushes_eq, hcore.stack.length_eq]
  omega

theorem stepped (hn : n.Made op) (hlive : n.eliminated = false) (hlo : lo ≤ n.id)
    (hsim : Simulates G pc lo n.id available .clear r m env base hidden)
    (hlen : n.pops ≤ r.stack.length) (hkept : r'.graph.Kept G)
    (hreg : Regular ctx.modes m n' e)
    (haligned : Aligned ctx.modes (availableAfter available n) .clear ns) :
    Stepped G ctx.modes pc lo n.id ns n' r' m env e := by
  have hcore := h.core hn hlive hlo hsim.clear_core hlen hkept hreg
  refine ⟨⟨_, _, _, _, haligned, hcore.simulates ?_⟩, h.depth hn hsim.clear_core hcore⟩
  exact hsim.available.availableAfter h.grows (fun hpure => h.pure_frame hn hpure e) e

theorem guard_stepped (hn : n.IsGuard)
    (hsim : Simulates G pc lo n.id available .clear r m env base hidden)
    (hreg : Regular ctx.modes m n' e)
    (haligned : Aligned ctx.modes (availableAfter available n) .clear ns) :
    Stepped G ctx.modes pc lo n.id ns n' r' m env e := by
  obtain ⟨rfl, hm, hcore⟩ := h.guard_core hn hsim.clear_core hreg
  constructor
  · rw [hm]
    refine ⟨_, _, _, _, haligned, hcore.simulates ?_⟩
    exact hsim.available.availableAfter h.grows (fun _ => rfl) e
  · rw [hm]
    simp only [OptimizedNode.depthAfter, hn.op_eq]

end LiveStep

theorem eliminated_pushed (hn : n.Made op) (helim : n.eliminated = true) (m : Machine V)
    (e : Event V) : m.pushed n op e = (List.range op.pushes).map e.results := by
  have hmem := hn.eliminated_eq.symm.trans helim
  simp only [List.mem_cons, List.not_mem_nil, or_false, decide_eq_true_eq] at hmem
  rcases hmem with hname | hname
  · have hmeaning : meaning op.name = .compute := by rw [hname]; rfl
    simp only [Machine.pushed, hmeaning]
  · have hmeaning : meaning op.name = .shuffle [] := by rw [hname]; rfl
    have hshape : (n.bytes.length, op.pops, op.pushes) = (1, 1, 0) := hn.shape (by rw [hname]; rfl)
    have hpushes : op.pushes = 0 := (Prod.mk.inj (Prod.mk.inj hshape).2).2
    simp only [Machine.pushed, hmeaning, hpushes]
    rfl

theorem eliminated_writes (hn : n.Made op) (helim : n.eliminated = true) :
    (meaning op.name).writes = false := by
  have hmem := hn.eliminated_eq.symm.trans helim
  simp only [List.mem_cons, List.not_mem_nil, or_false, decide_eq_true_eq] at hmem
  rcases hmem with hname | hname <;> rw [hname] <;> rfl

theorem EliminatedStep.stepped (h : EliminatedStep n r r' outputs) (hn : n.Made op)
    (helim : n.eliminated = true) (hlo : lo ≤ n.id)
    (hsim : Simulates G pc lo n.id available .clear r m env base hidden)
    (hkept : r'.graph.Kept G) (haligned : Aligned ctx.modes (availableAfter available n) .clear ns)
    (e : Event V) :
    Stepped G ctx.modes pc lo n.id ns n r' m env e := by
  have hkeep : n.mayChangeFrame = false := by simp [OptimizedNode.mayChangeFrame, helim]
  have hafter := after_pure (m := m) hn.op_eq (eliminated_writes hn helim) hkeep e
  rw [eliminated_pushed hn helim] at hafter
  have hframe : (m.after n e).frame = m.frame := by rw [hafter]
  have hstack : (m.after n e).stack =
      m.stack.take (m.stack.length - n.pops) ++ (List.range n.pushes).map e.results := by
    rw [hafter, hn.pops_eq, hn.pushes_eq]
  have hcore : Core G pc lo (n.id + 1) r' (m.after n e)
      (G.envAfter env n.id (m.after n e) e) :=
    h.core hlo hsim.clear_core hkept hframe hstack
  refine ⟨⟨_, _, _, _, haligned, hcore.simulates ?_⟩, ?_⟩
  · exact hsim.available.availableAfter h.grows (fun _ => hframe) e
  · rw [hafter]
    simp only [OptimizedNode.depthAfter, hn.op_eq, List.length_append, List.length_take,
      List.length_map, List.length_range]
    omega

/-! ## Triples -/

theorem OptimizedNode.Made.live (hn : n.Made op) (hnop : op.name ≠ .nop) (hdrop : op.name ≠ .drop) :
    n.eliminated = false := by
  rw [hn.eliminated_eq]
  simp [hnop, hdrop]

theorem OptimizedNode.LoadShape.live (h : n.LoadShape op) (hn : n.Made op) :
    n.eliminated = false := by
  refine hn.live (fun hname => ?_) (fun hname => ?_) <;>
    (have hmeaning := h.meaning_eq; rw [hname] at hmeaning; cases hmeaning)

theorem isPureBinary_live (hn : n.Made op) (h : isPureBinary op.name = true) :
    n.eliminated = false := by
  refine hn.live (fun hname => ?_) (fun hname => ?_) <;> (rw [hname] at h; cases h)

/-- A node that is not eliminated takes the live branch. -/
theorem rewriteNode_live (h : rewriteNode ctx r n = .ok (n', r')) (hlive : n.eliminated = false) :
    n.pops ≤ r.stack.length ∧ ∃ r₁ r₂ r₃ r₄ result shuffled definitions outputs,
      LiveStep ctx n r n' r' r₁ r₂ r₃ r₄ result shuffled definitions outputs := by
  obtain ⟨hlen, ⟨helim, -⟩ | ⟨-, h⟩⟩ := rewriteNode_eq_ok h
  · cases hlive.symm.trans helim
  · exact ⟨hlen, rewriteLive_eq_ok hlen h⟩

theorem rewriteNode_eliminated (h : rewriteNode ctx r n = .ok (n', r')) (helim : n.eliminated = true) :
    n' = n ∧ ∃ outputs, EliminatedStep n r r' outputs := by
  obtain ⟨-, ⟨-, h⟩ | ⟨hlive, -⟩⟩ := rewriteNode_eq_ok h
  · exact rewriteEliminated_eq_ok h
  · cases helim.symm.trans hlive

/-- A load that stays: its slot is on both stacks. -/
theorem load_core {slot : FrameSlot} (hload : TripleLoad .define slot n)
    (hrewrite : rewriteNode ctx r n = .ok (n', r')) (hlo : lo ≤ n.id)
    (hcore : Core G pc lo n.id r m env) (hkept : r'.graph.Kept G)
    (hreg : Regular ctx.modes m n' e) :
    Core G pc lo (n.id + 1) r' (m.after n' e) (G.envAfter env n.id (m.after n' e) e) ∧
      m.after n' e = ⟨m.frame, m.stack ++ [m.frame slot]⟩ ∧
      (m.after n' e).stack.length = n'.depthAfter m.stack.length := by
  obtain ⟨n₀, op, hn, hpure, rfl, rfl⟩ := hload
  have hshape := hn.loadShape hpure
  obtain ⟨hlen, _, _, _, _, _, _, _, _, h⟩ := rewriteNode_live hrewrite (hshape.live hn)
  have hcore' := h.core hn (hshape.live hn) hlo hcore hlen hkept hreg
  refine ⟨hcore', ?_, h.depth hn hcore hcore'⟩
  have hop : n'.op = some op := h.result_of.frame.op.trans hn.op_eq
  have hkeep : n'.mayChangeFrame = false := by
    rcases h.result_of.effect with heq | ⟨hcall, -⟩
    · exact OptimizedNode.pure_keeps (heq.trans hshape.effect_eq)
    · cases hcall.symm.trans hshape.effect_eq
  rw [after_load hop hshape hkeep, h.result_of.frame.bytes]

/-- A load that is hidden: its slot is on the machine's stack only. -/
theorem hidden_load_core {slot : FrameSlot} (huse : use ≠ .define) (hload : TripleLoad use slot n)
    (hrewrite : rewriteNode ctx r n = .ok (n', r')) (hlo : lo ≤ n.id)
    (hcore : Core G pc lo n.id r ⟨m.frame, base⟩ env) (hkept : r'.graph.Kept G) (e : Event V) :
    GrowsAt n.id r.graph r'.graph ∧
      Core G pc lo (n.id + 1) r' ⟨m.frame, base⟩ (G.envAfter env n.id (m.after n' e) e) ∧
      m.after n' e = ⟨m.frame, m.stack ++ [m.frame slot]⟩ ∧
      (m.after n' e).stack.length = n'.depthAfter m.stack.length := by
  obtain ⟨n₀, op, hn, hpure, rfl, rfl⟩ := hload
  rw [if_neg huse] at *
  have hshape := hn.loadShape hpure
  obtain ⟨rfl, outputs, h⟩ := rewriteNode_eliminated hrewrite rfl
  have hafter : m.after n₀.hide e =
      ⟨m.frame, m.stack ++ [m.frame (operandSlot op.name n₀.bytes)]⟩ :=
    after_load (n := n₀.hide) hn.op_eq hshape n₀.hide_keeps e
  have hcore' := h.hidden_core (e := e) hlo hcore hkept
    (show (m.after n₀.hide e).frame = m.frame by rw [hafter])
  rw [show (m.after n₀.hide e).frame = m.frame by rw [hafter]] at hcore'
  refine ⟨h.grows, hcore', hafter, ?_⟩
  have hop : n₀.hide.op = some op := hn.op_eq
  rw [hafter]
  simp [OptimizedNode.depthAfter, hop, hshape.pops_eq, hshape.pushes_eq]

/-- The value arithmetic leaves for later nodes to reuse. -/
theorem LiveStep.nodeValue_holds {r₁ r₂ r₃ r₄ : Rewriting} {shuffled : Option (List Nat)}
    {definitions : List (FrameSlot × Nat)}
    (h : LiveStep ctx n r n' r' r₁ r₂ r₃ r₄ result shuffled definitions outputs) (hn : n.Made op)
    (hbinary : isPureBinary op.name = true) (hlo : lo ≤ n.id)
    (hcore : Core G pc lo n.id r m env) (hlen : n.pops ≤ r.stack.length)
    (hkept : r'.graph.Kept G) (hreg : Regular ctx.modes m n' e) (m' : Machine V) :
    ∃ v, r'.graph.nodeValues n.id = some v ∧
      Holds G pc lo (n.id + 1) (G.envAfter env n.id m' e) v (e.results 0) := by
  have hshape := hn.binaryShape hbinary
  have hresult := h.result_of.holds hn hlo (h.core₁ hcore) (h.grows₂.kept.trans hkept) hreg m'
  have houtputs := h.outputs_hold hn (isPureBinary_live hn hbinary) hlo hcore hlen hkept hreg m'
  have hpushed : m.pushed n op e = [e.results 0] := by
    simp only [Machine.pushed, hshape.meaning_eq, hshape.pushes_eq]
    rfl
  have hvalue : resultValue m n op.name e = some (e.results 0) := by
    simp only [resultValue, hshape.meaning_eq]
  have hpushes : n'.pushes = 1 :=
    h.result_of.frame.pushes.trans (hn.pushes_eq.trans hshape.pushes_eq)
  rw [hpushed] at houtputs
  rw [h.state_eq]
  simp only [recordNode, h.id_eq, Function.update_self, if_pos hpushes]
  split
  case isTrue hupdate =>
    obtain ⟨v, rfl, -⟩ := Option.any_eq_true _ _ |>.mp hupdate
    obtain ⟨x, hx, hholds⟩ := hresult.result_holds rfl
    cases hvalue.symm.trans hx
    exact ⟨v, rfl, hholds⟩
  case isFalse =>
    cases houtputs with
    | cons hv hrest =>
      cases hrest
      exact ⟨_, rfl, hv⟩

/-- Arithmetic whose expression becomes reusable. -/
theorem define_stepped {key : ExpressionKey} (hn : n.Made op)
    (hbinary : isPureBinary op.name = true) (hkey : key.For ctx.modes op n.pc lhs rhs)
    (hrewrite : rewriteNode ctx r n = .ok (n', r')) (hlo : lo ≤ n.id)
    (hsim : Simulates G pc lo n.id available (.two .define lhs rhs) r m env base hidden)
    (hkept : r'.graph.Kept G) (hreg : Regular ctx.modes m n' e)
    (haligned : Aligned ctx.modes ((key, n.id) :: available) .clear ns) :
    Stepped G ctx.modes pc lo n.id ns n' r' m env e := by
  obtain ⟨hnil, below, hbase⟩ := hsim.pending
  have hstack : m.stack = below ++ [m.frame lhs, m.frame rhs] := by
    rw [hsim.stack_eq, hnil, List.append_nil, hbase]
  have hcore : Core G pc lo n.id r m env := by
    have hcore := hsim.core
    rw [show base = m.stack by rw [hstack, hbase]] at hcore
    exact hcore
  have hshape := hn.binaryShape hbinary
  obtain ⟨hlen, _, _, _, _, _, _, _, _, h⟩ :=
    rewriteNode_live hrewrite (isPureBinary_live hn hbinary)
  have hcore' := h.core hn (isPureBinary_live hn hbinary) hlo hcore hlen hkept hreg
  have hframe := h.pure_frame (m := m) hn hshape.effect_eq e
  refine ⟨⟨_, _, _, _, haligned, hcore'.simulates ?_⟩, h.depth hn hcore hcore'⟩
  intro key' source hmem
  rcases List.mem_cons.mp hmem with heq | hmem
  · cases heq
    obtain ⟨v, hv, hholds⟩ :=
      h.nodeValue_holds hn hbinary hlo hcore hlen hkept hreg (m.after n' e)
    obtain ⟨bop, hbop⟩ := isPureBinary_iff.mp hbinary
    have hop : n'.op = some op := h.result_of.frame.op.trans hn.op_eq
    have hvalue := hreg.arithmetic hop hbop hstack
    rw [h.result_of.frame.pc, ← hkey.mode_eq, ← hkey.lhs_eq, ← hkey.rhs_eq] at hvalue
    refine ⟨Nat.lt_succ_self _, v, bop, hv, by rw [hkey.opcode_eq, hbop], ?_⟩
    rw [hframe, ← hvalue]
    exact hholds
  · exact hsim.available.after h.grows hframe e key' source hmem

/-- Arithmetic whose value is reused. -/
theorem reuse_stepped {key : ExpressionKey} (hn : n.Made op) (hbinary : isPureBinary op.name = true)
    (hkey : key.For ctx.modes op n.pc lhs rhs) (hmem : (key, source) ∈ available)
    (hrewrite : rewriteNode ctx r (n.reuseTriple source) = .ok (n', r'))
    (hsim : Simulates G pc lo n.id available (.two .reuse lhs rhs) r m env base hidden)
    (hreg : Regular ctx.modes m n' e) (haligned : Aligned ctx.modes available .clear ns) :
    Stepped G ctx.modes pc lo n.id ns n' r' m env e := by
  have hstack : m.stack = base ++ [m.frame lhs, m.frame rhs] := by
    rw [hsim.stack_eq, show hidden = [m.frame lhs, m.frame rhs] from hsim.pending]
  have hshape := hn.binaryShape hbinary
  have hlive : n.eliminated = false := isPureBinary_live hn hbinary
  obtain ⟨-, _, _, _, _, _, _, _, outputs, h⟩ := rewriteNode_live hrewrite hlive
  obtain ⟨rfl, -⟩ := h.result_of.of_reuse rfl
  obtain ⟨-, v, bop, hv, hbop, hholds⟩ := hsim.available key source hmem
  obtain ⟨v', rfl, hv'⟩ := h.reuse_outputs rfl rfl
  cases hv.symm.trans hv'
  have hop : (n.reuseTriple source).op = some op := hn.op_eq
  have hkeep : (n.reuseTriple source).mayChangeFrame = false :=
    OptimizedNode.pure_keeps (n := n.reuseTriple source) hshape.effect_eq
  have hafter := after_binary (m := m) hop hshape hkeep hstack e
  -- The bytecode computes what the key says.
  rw [hkey.opcode_eq] at hbop
  have hvalue := hreg.arithmetic hop hbop hstack
  rw [show (n.reuseTriple source).pc = n.pc from rfl, ← hkey.mode_eq] at hvalue
  rw [hkey.lhs_eq, hkey.rhs_eq, ← hvalue] at hholds
  have hcore' := h.reuse_core (e := e) rfl rfl hshape.effect_eq rfl hsim.core hholds
    (show (m.after (n.reuseTriple source) e).frame = m.frame by rw [hafter])
  have hcore'' : Core G pc lo (n.id + 1) r' (m.after (n.reuseTriple source) e)
      (G.envAfter env n.id (m.after (n.reuseTriple source) e) e) := by
    rw [show base ++ [e.results 0] = (m.after (n.reuseTriple source) e).stack by rw [hafter]]
      at hcore'
    exact hcore'
  refine ⟨⟨_, _, _, _, haligned, hcore''.simulates ?_⟩, ?_⟩
  · exact hsim.available.after h.grows (by rw [hafter]) e
  · rw [hafter, hstack]
    simp [OptimizedNode.depthAfter, hop, hshape.pops_eq, hshape.pushes_eq]

/-- Arithmetic whose value is dropped. -/
theorem dead_stepped (hn : n.Made op) (hbinary : isPureBinary op.name = true)
    (hrewrite : rewriteNode ctx r n.hide = .ok (n', r')) (hlo : lo ≤ n.id)
    (hsim : Simulates G pc lo n.id available (.two .dead lhs rhs) r m env base hidden)
    (hkept : r'.graph.Kept G) (haligned : Aligned ctx.modes available .result ns) (e : Event V) :
    Stepped G ctx.modes pc lo n.id ns n' r' m env e := by
  have hstack : m.stack = base ++ [m.frame lhs, m.frame rhs] := by
    rw [hsim.stack_eq, show hidden = [m.frame lhs, m.frame rhs] from hsim.pending]
  have hshape := hn.binaryShape hbinary
  have hop : n.hide.op = some op := hn.op_eq
  obtain ⟨rfl, outputs, h⟩ := rewriteNode_eliminated hrewrite rfl
  have hafter := after_binary (m := m) hop hshape n.hide_keeps hstack e
  have hframe : (m.after n.hide e).frame = m.frame := by rw [hafter]
  refine ⟨⟨_, _, base, [e.results 0], haligned, ?_, ?_, ⟨_, rfl⟩, ?_⟩, ?_⟩
  · rw [hafter]
  · exact h.hidden_core hlo hsim.core hkept hframe
  · exact hsim.available.after h.grows hframe e
  · rw [hafter, hstack]
    simp [OptimizedNode.depthAfter, hop, hshape.pops_eq, hshape.pushes_eq]

/-- The drop of a value that was never on the graph's stack. -/
theorem drop_stepped (hn : n.Made op) (hname : op.name = .drop)
    (hrewrite : rewriteNode ctx r n.hide = .ok (n', r')) (hlo : lo ≤ n.id)
    (hsim : Simulates G pc lo n.id available .result r m env base hidden)
    (hkept : r'.graph.Kept G) (haligned : Aligned ctx.modes available .clear ns) (e : Event V) :
    Stepped G ctx.modes pc lo n.id ns n' r' m env e := by
  obtain ⟨x, hx⟩ := hsim.pending
  have hstack : m.stack = base ++ [x] := by rw [hsim.stack_eq, hx]
  have hop : n.hide.op = some op := hn.op_eq
  have hshape : (n.bytes.length, op.pops, op.pushes) = (1, 1, 0) := hn.shape (by rw [hname]; rfl)
  obtain ⟨rfl, outputs, h⟩ := rewriteNode_eliminated hrewrite rfl
  have hafter := after_drop (m := m) hop hn hname n.hide_keeps hstack e
  have hframe : (m.after n.hide e).frame = m.frame := by rw [hafter]
  refine ⟨⟨_, _, base, [], haligned, ?_, ?_, rfl, ?_⟩, ?_⟩
  · rw [hafter, List.append_nil]
  · exact h.hidden_core hlo hsim.core hkept hframe
  · exact hsim.available.after h.grows hframe e
  · simp only [Prod.mk.injEq] at hshape
    rw [hafter, hstack]
    simp [OptimizedNode.depthAfter, hop, hshape.2.1, hshape.2.2]

/-- A load of a triple, which pushes its slot or hides it. -/
theorem load_stepped {slot : FrameSlot} {pending' : Pending} (hload : TripleLoad use slot n)
    (hrewrite : rewriteNode ctx r n = .ok (n', r')) (hlo : lo ≤ n.id)
    (hsim : Simulates G pc lo n.id available pending r m env base hidden)
    (hkept : r'.graph.Kept G) (hreg : Regular ctx.modes m n' e)
    (haligned : Aligned ctx.modes available pending' ns)
    (hpushed : use = .define → hidden = [] ∧ PendingOk m.frame (base ++ [m.frame slot]) [] pending')
    (hhidden : use ≠ .define → PendingOk m.frame base (hidden ++ [m.frame slot]) pending') :
    Stepped G ctx.modes pc lo n.id ns n' r' m env e := by
  have hgrows := (rewriteNode_grows hrewrite).2
  by_cases huse : use = .define
  · subst huse
    obtain ⟨rfl, hpending⟩ := hpushed rfl
    have hstack : m.stack = base := by rw [hsim.stack_eq, List.append_nil]
    have hcore₀ : Core G pc lo n.id r m env := by
      have hcore := hsim.core
      rw [← hstack] at hcore
      exact hcore
    obtain ⟨hcore, hafter, hdepth⟩ := load_core hload hrewrite hlo hcore₀ hkept hreg
    refine ⟨⟨_, _, _, [], haligned, (List.append_nil _).symm, hcore, ?_, ?_⟩, hdepth⟩
    · rw [hafter, hstack]
      exact hpending
    · exact hsim.available.after hgrows (by rw [hafter]) e
  · obtain ⟨-, hcore, hafter, hdepth⟩ :=
      hidden_load_core huse hload hrewrite hlo hsim.core hkept e
    have hframe : (m.after n' e).frame = m.frame := by rw [hafter]
    refine ⟨⟨_, _, base, hidden ++ [m.frame slot], haligned, ?_, hframe ▸ hcore, ?_, ?_⟩, hdepth⟩
    · rw [hafter, hsim.stack_eq, List.append_assoc]
    · rw [hframe]
      exact hhidden huse
    · exact hsim.available.after hgrows hframe e

/-- The first load of a triple. -/
theorem first_stepped (hload : TripleLoad use lhs n) (hrewrite : rewriteNode ctx r n = .ok (n', r'))
    (hlo : lo ≤ n.id) (hsim : Simulates G pc lo n.id available .clear r m env base hidden)
    (hkept : r'.graph.Kept G) (hreg : Regular ctx.modes m n' e)
    (haligned : Aligned ctx.modes available (.one use lhs) ns) :
    Stepped G ctx.modes pc lo n.id ns n' r' m env e := by
  obtain rfl : hidden = [] := hsim.pending
  refine load_stepped hload hrewrite hlo hsim hkept hreg haligned (fun huse => ?_) fun huse => ?_
  · subst huse
    exact ⟨rfl, rfl, base, rfl⟩
  · cases use with
    | define => exact absurd rfl huse
    | reuse | dead => rfl

/-- The second load of a triple. -/
theorem second_stepped (hload : TripleLoad use rhs n)
    (hrewrite : rewriteNode ctx r n = .ok (n', r')) (hlo : lo ≤ n.id)
    (hsim : Simulates G pc lo n.id available (.one use lhs) r m env base hidden)
    (hkept : r'.graph.Kept G) (hreg : Regular ctx.modes m n' e)
    (haligned : Aligned ctx.modes available (.two use lhs rhs) ns) :
    Stepped G ctx.modes pc lo n.id ns n' r' m env e := by
  have hpending := hsim.pending
  refine load_stepped hload hrewrite hlo hsim hkept hreg haligned (fun huse => ?_) fun huse => ?_
  · subst huse
    obtain ⟨hnil, below, rfl⟩ := hpending
    exact ⟨hnil, rfl, below, List.append_assoc ..⟩
  · cases use with
    | define => exact absurd rfl huse
    | reuse | dead => exact congrArg (· ++ [m.frame rhs]) hpending

/-- One node of a block. -/
theorem Simulates.step (hsim : Simulates G pc lo n.id available pending r m env base hidden)
    (haligned : Aligned ctx.modes available pending (n :: ns))
    (hrewrite : rewriteNode ctx r n = .ok (n', r')) (hlo : lo ≤ n.id) (hkept : r'.graph.Kept G)
    (hreg : Regular ctx.modes m n' e) :
    Stepped G ctx.modes pc lo n.id ns n' r' m env e := by
  cases haligned with
  | keep hfresh haligned =>
    rcases hfresh with hguard | ⟨op, hn⟩
    · obtain ⟨-, _, _, _, _, _, _, _, _, h⟩ := rewriteNode_live hrewrite hguard.eliminated_eq
      exact h.guard_stepped hguard hsim hreg haligned
    · cases helim : n.eliminated with
      | true =>
        obtain ⟨rfl, outputs, h⟩ := rewriteNode_eliminated hrewrite helim
        exact h.stepped hn helim hlo hsim hkept haligned e
      | false =>
        obtain ⟨hlen, _, _, _, _, _, _, _, _, h⟩ := rewriteNode_live hrewrite helim
        exact h.stepped hn helim hlo hsim hlen hkept hreg haligned
  | first hload haligned => exact first_stepped hload hrewrite hlo hsim hkept hreg haligned
  | second hload haligned => exact second_stepped hload hrewrite hlo hsim hkept hreg haligned
  | define hn hbinary hkey haligned =>
    exact define_stepped hn hbinary hkey hrewrite hlo hsim hkept hreg haligned
  | reuse hn hbinary hkey hmem haligned =>
    have hstepped := reuse_stepped hn hbinary hkey hmem hrewrite hsim hreg haligned
    exact hstepped
  | dead hn hbinary haligned =>
    have hstepped := dead_stepped hn hbinary hrewrite hlo hsim hkept haligned e
    exact hstepped
  | drop hn hname haligned =>
    have hstepped := drop_stepped hn hname hrewrite hlo hsim hkept haligned e
    exact hstepped

end

end QuickJit
