import QuickJit.Ir.Aligned

/-
  How the scalar graph grows.

  Processing node `id` only appends values that belong to it and fills its own
  row of every table (`GrowsAt`). Nothing is taken back later: in the finished
  graph every value is where it was put, with its origin; an input of a block
  may have become a phi and an update an integer update (`Kept`), and the row of
  a node is what the node left in it (`Settled`).

  `ResultOf` says once what computing the result of a node can do. Later proofs
  use its cases and never unfold `nodeResult`.
-/

namespace QuickJit

open Outcome Rewriting ScalarGraph

variable {make : FrameSlot → ScalarValue} {bindings : List (FrameSlot × Nat)}
  {slots : List FrameSlot}

variable {id output : Nat} {n n' : OptimizedNode} {result : Option Nat} {ctx : RewriteContext}
  {r' : Rewriting} {g g' : ScalarGraph} {origin : ValueOrigin}

/-! ## Values stay -/

/-- The same value, up to the contract of an update. -/
def ScalarValue.Same (a b : ScalarValue) : Prop :=
  a = b ∨ ∃ mode mode' input delta, a = .update mode input delta ∧ b = .update mode' input delta

structure Definition.Becomes (d d' : Definition) : Prop where
  origin : d'.origin = d.origin
  value : (∀ pc, d.origin ≠ .block pc) → d.value.Same d'.value

theorem ScalarValue.Same.trans {a b c : ScalarValue} (h : a.Same b) (h' : b.Same c) : a.Same c := by
  rcases h with rfl | ⟨mode, mode', input, delta, rfl, rfl⟩
  · exact h'
  · rcases h' with rfl | ⟨_, mode'', _, _, heq, rfl⟩
    · exact .inr ⟨mode, mode', input, delta, rfl, rfl⟩
    · cases heq
      exact .inr ⟨mode, mode'', input, delta, rfl, rfl⟩

theorem Definition.Becomes.refl (d : Definition) : d.Becomes d := ⟨rfl, fun _ => .inl rfl⟩

theorem Definition.Becomes.trans {a b c : Definition} (h : a.Becomes b) (h' : b.Becomes c) :
    a.Becomes c :=
  ⟨h'.origin.trans h.origin, fun hne =>
    (h.value hne).trans (h'.value (by rw [h.origin]; exact hne))⟩

namespace ScalarGraph

/-- Every definition of `g` is still one of `G`. -/
def Kept (g G : ScalarGraph) : Prop :=
  ∀ (v : Nat) (d : Definition), g.definitions[v]? = some d →
    ∃ d', G.definitions[v]? = some d' ∧ d.Becomes d'

theorem Kept.trans {a b c : ScalarGraph} (h : a.Kept b) (h' : b.Kept c) : a.Kept c := by
  intro v d hv
  obtain ⟨d₁, hd₁, hb₁⟩ := h v d hv
  obtain ⟨d₂, hd₂, hb₂⟩ := h' v d₁ hd₁
  exact ⟨d₂, hd₂, hb₁.trans hb₂⟩

/-- The row of a node in the tables of a graph. -/
def row (g : ScalarGraph) (id : Nat) : Option ScalarFrameState × Option Nat × List Nat ×
    List (FrameSlot × Nat) × Option ScalarHeapOperation × ScalarHeapEffect :=
  (g.frameStates id, g.nodeValues id, g.nodeOutputs id, g.frameDefinitions id, g.heapOperations id,
    g.heapEffects id)

/-- What processing node `id` may do to the graph. -/
structure GrowsAt (id : Nat) (g g' : ScalarGraph) : Prop where
  added : ∃ ds, g'.definitions = g.definitions ++ ds ∧ ∀ d ∈ ds, ∃ k, d.origin = .node id k
  blockInputs : g'.blockInputs = g.blockInputs
  checks : g'.checks = g.checks
  nodeCount : g'.nodeCount = g.nodeCount
  others : ∀ m, m ≠ id → g'.row m = g.row m

namespace GrowsAt

variable {id : Nat} {g g' g'' : ScalarGraph}

theorem refl (id : Nat) (g : ScalarGraph) : GrowsAt id g g :=
  ⟨⟨[], by simp, fun _ h => (List.not_mem_nil h).elim⟩, rfl, rfl, rfl, fun _ _ => rfl⟩

theorem trans (h : GrowsAt id g g') (h' : GrowsAt id g' g'') : GrowsAt id g g'' := by
  obtain ⟨ds, hds, hnew⟩ := h.added
  obtain ⟨ds', hds', hnew'⟩ := h'.added
  refine ⟨⟨ds ++ ds', by rw [hds', hds, List.append_assoc], fun d hd => ?_⟩,
    h'.blockInputs.trans h.blockInputs, h'.checks.trans h.checks, h'.nodeCount.trans h.nodeCount,
    fun m hm => (h'.others m hm).trans (h.others m hm)⟩
  rcases List.mem_append.mp hd with hd | hd
  · exact hnew d hd
  · exact hnew' d hd

theorem get (h : GrowsAt id g g') {v : Nat} {d : Definition} (hv : g.definitions[v]? = some d) :
    g'.definitions[v]? = some d := by
  obtain ⟨ds, hds, -⟩ := h.added
  rw [hds, List.getElem?_append_left (List.getElem?_eq_some_iff.mp hv).1]
  exact hv

theorem kept (h : GrowsAt id g g') : g.Kept g' := fun _ _ hv => ⟨_, h.get hv, .refl _⟩

/-- A graph that differs only in the row of `id`. -/
theorem of_row (hdef : g'.definitions = g.definitions) (hin : g'.blockInputs = g.blockInputs)
    (hchecks : g'.checks = g.checks) (hcount : g'.nodeCount = g.nodeCount)
    (hrow : ∀ m, m ≠ id → g'.row m = g.row m) : GrowsAt id g g' :=
  ⟨⟨[], by simp [hdef], fun _ h => (List.not_mem_nil h).elim⟩, hin, hchecks, hcount, hrow⟩

end GrowsAt

/-- Growth that leaves the tables alone. -/
structure PushesAt (id : Nat) (g g' : ScalarGraph) : Prop extends GrowsAt id g g' where
  row_eq : g'.row = g.row

theorem PushesAt.refl (id : Nat) (g : ScalarGraph) : PushesAt id g g := ⟨.refl id g, rfl⟩

theorem PushesAt.trans {g'' : ScalarGraph} (h : PushesAt id g g') (h' : PushesAt id g' g'') :
    PushesAt id g g'' :=
  ⟨h.toGrowsAt.trans h'.toGrowsAt, h'.row_eq.trans h.row_eq⟩

theorem PushesAt.states (h : PushesAt id g g') :
    g'.frameStates = g.frameStates :=
  funext fun m => congrArg (·.1) (congrFun h.row_eq m)

theorem PushesAt.heapOperations (h : PushesAt id g g') :
    g'.heapOperations = g.heapOperations :=
  funext fun m => congrArg (·.2.2.2.2.1) (congrFun h.row_eq m)

theorem push_eq_ok {value : ScalarValue} {v : Nat} (h : g.push origin value = .ok (v, g')) :
    v = g.definitions.length ∧ g' = { g with definitions := g.definitions ++ [⟨value, origin⟩] } := by
  unfold push at h
  rw [ite_fail_eq_ok] at h
  cases h.2
  exact ⟨rfl, rfl⟩

theorem push_pushes {value : ScalarValue} {v : Nat}
    (h : g.push (.node id output) value = .ok (v, g')) : PushesAt id g g' := by
  obtain ⟨-, rfl⟩ := push_eq_ok h
  exact ⟨⟨⟨_, rfl, fun d hd => ⟨output, by rw [List.mem_singleton.mp hd]⟩⟩, rfl, rfl, rfl,
    fun _ _ => rfl⟩, rfl⟩

theorem push_grows {value : ScalarValue} {v : Nat}
    (h : g.push (.node id output) value = .ok (v, g')) : GrowsAt id g g' :=
  (push_pushes h).toGrowsAt

theorem push_get {value : ScalarValue} {v : Nat} (h : g.push origin value = .ok (v, g')) :
    g'.definitions[v]? = some ⟨value, origin⟩ := by
  obtain ⟨rfl, rfl⟩ := push_eq_ok h
  simp

/-- The bindings of `allocate`: one value for each slot, in order. -/
structure Allocated (origin : ValueOrigin) (make : FrameSlot → ScalarValue) (g : ScalarGraph)
    (slots : List FrameSlot) (bindings : List (FrameSlot × Nat)) (g' : ScalarGraph) : Prop where
  slots_eq : bindings.map (·.1) = slots
  get : ∀ {slot v}, (slot, v) ∈ bindings → g'.definitions[v]? = some ⟨make slot, origin⟩
  graph_eq : ∃ ds, g' = { g with definitions := g.definitions ++ ds } ∧ ∀ d ∈ ds, d.origin = origin
  covers : ∀ {v : Nat}, g.definitions.length ≤ v → v < g'.definitions.length →
    ∃ slot, slot ∈ slots ∧ (slot, v) ∈ bindings

theorem allocate_eq_ok (h : g.allocate origin make slots = .ok (bindings, g')) :
    Allocated origin make g slots bindings g' := by
  have hc := collectM_eq_ok h
  clear h
  induction hc with
  | nil =>
    exact ⟨rfl, fun h => (List.not_mem_nil h).elim,
      ⟨[], by simp, fun _ h => (List.not_mem_nil h).elim⟩, fun hle hlt => by omega⟩
  | @cons g slot binding g₁ rest bindings g' hstep _ ih =>
    simp only [bind_eq_ok] at hstep
    obtain ⟨⟨v, g₂⟩, hpush, hstep⟩ := hstep
    cases hstep
    obtain ⟨ds, hds, horigin⟩ := ih.graph_eq
    obtain ⟨hv, hg₁⟩ := push_eq_ok hpush
    refine ⟨by simp [ih.slots_eq], fun {slot' v'} hmem => ?_, ⟨⟨make slot, origin⟩ :: ds, ?_, ?_⟩,
      fun {v'} hle hlt => ?_⟩
    · rcases List.mem_cons.mp hmem with heq | hmem
      · cases heq
        have hget := push_get hpush
        rw [hds, List.getElem?_append_left (List.getElem?_eq_some_iff.mp hget).1]
        exact hget
      · exact ih.get hmem
    · rw [hds, hg₁]
      simp
    · intro d hd
      rcases List.mem_cons.mp hd with rfl | hd
      · rfl
      · exact horigin d hd
    · by_cases hfirst : v' = v
      · subst hfirst
        exact ⟨slot, List.mem_cons_self, List.mem_cons_self⟩
      · have hle₁ : g₂.definitions.length ≤ v' := by
          rw [hg₁, List.length_append, List.length_singleton]
          omega
        obtain ⟨slot', hslot', hmem⟩ := ih.covers hle₁ hlt
        exact ⟨slot', List.mem_cons_of_mem _ hslot', List.mem_cons_of_mem _ hmem⟩

theorem allocate_pushes (h : g.allocate (.node id output) make slots = .ok (bindings, g')) :
    PushesAt id g g' := by
  obtain ⟨ds, rfl, horigin⟩ := (allocate_eq_ok h).graph_eq
  exact ⟨⟨⟨ds, rfl, fun d hd => ⟨output, horigin d hd⟩⟩, rfl, rfl, rfl, fun _ _ => rfl⟩, rfl⟩

end ScalarGraph

open ScalarGraph (GrowsAt PushesAt)

theorem Rewriting.push_eq_ok {r : Rewriting} {value : ScalarValue} {v : Nat}
    (h : r.push id output value = .ok (v, r')) :
    ∃ graph, r.graph.push (.node id output) value = .ok (v, graph) ∧ r' = { r with graph } := by
  simp only [push, bind_eq_ok] at h
  obtain ⟨⟨v, graph⟩, hpush, h⟩ := h
  cases h
  exact ⟨graph, hpush, rfl⟩

/-! ## Inlining -/

theorem inlineValue_pushes {call : ScalarCall} {s s' : Inlining} {value : InlineValue}
    (h : inlineValue call s value = .ok s') :
    PushesAt call.frameStateNode s.graph s'.graph := by
  cases value with
  | argument index =>
    simp only [inlineValue, bind_eq_ok] at h
    obtain ⟨v, -, h⟩ := h
    cases h
    exact .refl _ _
  | int32 value | bool value =>
    simp only [inlineValue, bind_eq_ok] at h
    obtain ⟨⟨v, graph⟩, hpush, h⟩ := h
    cases h
    exact push_pushes hpush
  | binary op lhs rhs pc stack =>
    simp only [inlineValue, bind_eq_ok] at h
    obtain ⟨_, -, _, -, _, -, ⟨v, graph⟩, hpush, h⟩ := h
    cases h
    exact push_pushes hpush

theorem expandInline_pushes {call : ScalarCall} {callee : InlineCallee}
    {inline : Option ScalarInlineRegion} (h : expandInline g call callee = .ok (inline, g')) :
    PushesAt call.frameStateNode g g' := by
  unfold expandInline at h
  split at h
  · cases h
    exact .refl _ _
  · simp only at h
    split at h
    · cases h
      exact .refl _ _
    · simp only [bind_eq_ok] at h
      obtain ⟨s, hs, result, -, h⟩ := h
      cases h
      have hpushes : PushesAt call.frameStateNode g s.graph :=
        foldlM_preserves (P := fun s => PushesAt call.frameStateNode g s.graph) hs
          (.refl _ _) (fun _ _ _ _ hok hstep => hok.trans (inlineValue_pushes hstep))
      exact hpushes.trans ⟨.of_row rfl rfl rfl rfl fun _ _ => rfl, rfl⟩

theorem inlineCall_pushes {call : ScalarCall} (hcall : call.frameStateNode = n.id)
    {inline : Option ScalarInlineRegion} (h : inlineCall ctx n call g = .ok (inline, g')) :
    PushesAt n.id g g' := by
  unfold inlineCall at h
  split at h
  · rw [← hcall]
    exact expandInline_pushes h
  · cases h
    exact .refl _ _

/-! ## The result of a node -/

/-- What computing the result of a node can do: the result, the node as it is
left, and the new state. -/
inductive ResultOf (ctx : RewriteContext) (n : OptimizedNode) (r : Rewriting) :
    Option Nat → OptimizedNode → Rewriting → Prop
  | guard {guard midLoop} : n.kind = .guardNumeric guard midLoop → ResultOf ctx n r none n r
  | reuse {source v} : n.kind = .reuse source → r.graph.nodeValues source = some v →
      ResultOf ctx n r (some v) n r
  | propertyLoad {name base atom v graph} : n.kind = .bytecode name →
      name ∈ [OpName.getField, .getField2, .getLength] → r.popped n = [base] →
      (n.pops, n.pushes) = heapArity name → accessedAtom name n.bytes = .ok atom →
      r.graph.push (.node n.id 0) (.getProperty base atom n.id) = .ok (v, graph) →
      ResultOf ctx n r (some v) n
        (setHeapOperation n.id (.getProperty base atom v n.id) { r with graph })
  | propertyStore {base atom value} : n.kind = .bytecode .putField → r.popped n = [base, value] →
      (n.pops, n.pushes) = (2, 0) → accessedAtom .putField n.bytes = .ok atom →
      ResultOf ctx n r none n (setHeapOperation n.id (.putProperty base atom value n.id) r)
  | elementLoad {base index v graph} : n.kind = .bytecode .getArrayEl → r.popped n = [base, index] →
      (n.pops, n.pushes) = (2, 1) →
      r.graph.push (.node n.id 0) (.getElement base index n.id) = .ok (v, graph) →
      ResultOf ctx n r (some v) n
        (setHeapOperation n.id (.getElement base index v n.id) { r with graph })
  | elementStore {base index value} : n.kind = .bytecode .putArrayEl →
      r.popped n = [base, index, value] → (n.pops, n.pushes) = (3, 0) →
      ResultOf ctx n r none n (setHeapOperation n.id (.putElement base index value n.id) r)
  | call {name call inline graph v graph'} : n.kind = .bytecode name → scalarOp name = .call →
      n.pushes = 1 → n.effect = .reentrant → call.frameStateNode = n.id →
      inlineCall ctx n call r.graph = .ok (inline, graph) →
      graph.push (.node n.id 0) (.call { call with inline }) = .ok (v, graph') →
      ResultOf ctx n r (some v) (if inline.isSome then { n with effect := .control } else n)
        { r with graph := graph' }
  | bool {name value v graph} : n.kind = .bytecode name → scalarOp name = .bool value →
      r.graph.push (.node n.id 0) (.bool value) = .ok (v, graph) →
      ResultOf ctx n r (some v) n { r with graph }
  | constantNone {name} : n.kind = .bytecode name → scalarOp name = .constant →
      integerConstant name n.bytes = none → ResultOf ctx n r none n r
  | constantShared {name c v} : n.kind = .bytecode name → scalarOp name = .constant →
      integerConstant name n.bytes = some c → (c, v) ∈ r.constants → ResultOf ctx n r (some v) n r
  | constantNew {name c v graph} : n.kind = .bytecode name → scalarOp name = .constant →
      integerConstant name n.bytes = some c →
      r.graph.push (.node n.id 0) (.int32 c) = .ok (v, graph) →
      ResultOf ctx n r (some v) n { r with graph, constants := (c, v) :: r.constants }
  | load {name slot v} : n.kind = .bytecode name → scalarOp name = .load →
      loadSlot name n.bytes = some slot → r.frame slot = some v → ResultOf ctx n r (some v) n r
  | setSlot {name} : n.kind = .bytecode name → scalarOp name = .setSlot →
      ResultOf ctx n r r.stack.getLast? n r
  | update {name delta input v graph} : n.kind = .bytecode name →
      scalarOp name = .update delta → updateInput n name r = .ok input →
      r.graph.push (.node n.id 0) (.update (modeAt ctx.modes n.pc) input delta) = .ok (v, graph) →
      ResultOf ctx n r (some v) n { r with graph }
  | bitwise {name op lhs rhs v graph} : n.kind = .bytecode name → scalarOp name = .bitwise op →
      r.popped n = [lhs, rhs] → n.pushes = 1 →
      r.graph.push (.node n.id 0) (.bitwise op lhs rhs) = .ok (v, graph) →
      ResultOf ctx n r (some v) n { r with graph }
  | compare {name op lhs rhs v graph} : n.kind = .bytecode name → scalarOp name = .compare op →
      r.popped n = [lhs, rhs] → n.pushes = 1 →
      r.graph.push (.node n.id 0) (.compare op lhs rhs) = .ok (v, graph) →
      ResultOf ctx n r (some v) n { r with graph }
  | binaryShared {name op lhs rhs v source} : n.kind = .bytecode name →
      scalarOp name = .binary op → r.popped n = [lhs, rhs] → n.pushes = 1 →
      ((op, modeAt ctx.modes n.pc, lhs, rhs, n.representation), v, source) ∈ r.expressions →
      ResultOf ctx n r (some v) { n with kind := .reuse source }
        { r with eliminated := r.eliminated + 1 }
  | binaryNew {name op lhs rhs v graph} : n.kind = .bytecode name → scalarOp name = .binary op →
      r.popped n = [lhs, rhs] → n.pushes = 1 →
      r.graph.push (.node n.id 0) (.binary (modeAt ctx.modes n.pc) op lhs rhs) = .ok (v, graph) →
      ResultOf ctx n r (some v) n { r with
        graph
        expressions := ((op, modeAt ctx.modes n.pc, lhs, rhs, n.representation), v, n.id) ::
          r.expressions }
  | other {name} : n.kind = .bytecode name → scalarOp name = .other → ResultOf ctx n r none n r

theorem binaryOperands_eq_ok {r : Rewriting} {lhs rhs : Nat}
    (h : binaryOperands n r = .ok (lhs, rhs)) : r.popped n = [lhs, rhs] ∧ n.pushes = 1 := by
  unfold binaryOperands at h
  split at h
  case h_1 a b hpopped =>
    rw [ite_fail_eq_ok] at h
    cases h.2
    exact ⟨hpopped, not_not.mp h.1⟩
  case h_2 => exact absurd h (by simp)

theorem scalarOp_heap (name : OpName) : scalarOp name = .heap →
    name ∈ [OpName.getField, .getField2, .getLength, .putField, .getArrayEl, .putArrayEl] := by
  cases name <;> decide

theorem Rewriting.popped_length {r : Rewriting} (h : n.pops ≤ r.stack.length) :
    (r.popped n).length = n.pops := by
  rw [popped, List.length_drop]
  omega

theorem heapResult_of {name : OpName} {r : Rewriting} (hlen : n.pops ≤ r.stack.length)
    (hkind : n.kind = .bytecode name) (hop : scalarOp name = .heap)
    (h : heapResult n name r = .ok (result, r')) : ResultOf ctx n r result n r' := by
  unfold heapResult at h
  rw [ite_fail_eq_ok] at h
  obtain ⟨harity, h⟩ := h
  replace harity := not_not.mp harity
  have hpopped := popped_length hlen
  have hpops : n.pops = (heapArity name).1 := by rw [← harity]
  split at h
  case h_1 heq =>
    simp only [bind_eq_ok] at h
    obtain ⟨atom, hatom, h⟩ := h
    cases h
    exact .propertyStore hkind heq harity hatom
  case h_2 heq =>
    simp only [bind_eq_ok] at h
    obtain ⟨⟨v, r₁⟩, hpush, h⟩ := h
    cases h
    obtain ⟨graph, hgraph, rfl⟩ := push_eq_ok hpush
    exact .elementLoad hkind heq harity hgraph
  case h_3 heq =>
    cases h
    exact .elementStore hkind heq harity
  case h_4 heq =>
    simp only [bind_eq_ok] at h
    obtain ⟨atom, hatom, ⟨v, r₁⟩, hpush, h⟩ := h
    cases h
    obtain ⟨graph, hgraph, rfl⟩ := push_eq_ok hpush
    -- Only the property loads pop one value.
    have hname := scalarOp_heap _ hop
    rw [heq, hpops] at hpopped
    refine .propertyLoad hkind ?_ heq harity hatom hgraph
    simp only [List.mem_cons, List.not_mem_nil, or_false] at hname ⊢
    rcases hname with h | h | h | rfl | rfl | rfl
    · exact .inl h
    · exact .inr (.inl h)
    · exact .inr (.inr h)
    all_goals simp [heapArity] at hpopped
  case h_5 => cases h

theorem callResult_of {name : OpName} {r : Rewriting} (hkind : n.kind = .bytecode name)
    (hop : scalarOp name = .call) (h : callResult ctx n name r = .ok (result, n', r')) :
    ResultOf ctx n r result n' r' := by
  unfold callResult at h
  split at h
  · cases h
  · rw [ite_fail_eq_ok] at h
    obtain ⟨hok, h⟩ := h
    simp only [not_or, not_not] at hok
    simp only [bind_eq_ok] at h
    obtain ⟨⟨inline, graph⟩, hinline, ⟨v, r₁⟩, hpush, h⟩ := h
    cases h
    obtain ⟨graph', hgraph, rfl⟩ := push_eq_ok hpush
    exact .call hkind hop hok.1 hok.2.1 rfl hinline hgraph

theorem constantResult_of {name : OpName} {r : Rewriting} (hkind : n.kind = .bytecode name)
    (hop : scalarOp name = .constant) (h : constantResult n name r = .ok (result, r')) :
    ResultOf ctx n r result n r' := by
  unfold constantResult at h
  split at h
  case h_1 hnone =>
    cases h
    exact .constantNone hkind hop hnone
  case h_2 c hc =>
    split at h
    case h_1 c' v hfound =>
      cases h
      have hfst : c' = c := by simpa using List.find?_some hfound
      exact .constantShared hkind hop hc (hfst ▸ List.mem_of_find?_eq_some hfound)
    case h_2 =>
      simp only [bind_eq_ok] at h
      obtain ⟨⟨v, r₁⟩, hpush, h⟩ := h
      cases h
      obtain ⟨graph, hgraph, rfl⟩ := push_eq_ok hpush
      exact .constantNew hkind hop hc hgraph

theorem binaryResult_of {name : OpName} {op : ScalarBinaryOp} {r : Rewriting}
    (hkind : n.kind = .bytecode name) (hop : scalarOp name = .binary op)
    (h : binaryResult ctx n op r = .ok (result, n', r')) :
    ResultOf ctx n r result n' r' := by
  simp only [binaryResult, bind_eq_ok] at h
  obtain ⟨⟨lhs, rhs⟩, hoperands, h⟩ := h
  obtain ⟨hpopped, hpushes⟩ := binaryOperands_eq_ok hoperands
  split at h
  case h_1 key v source hfound =>
    cases h
    have hkey := List.find?_some hfound
    simp only [decide_eq_true_eq] at hkey
    exact .binaryShared hkind hop hpopped hpushes (hkey ▸ List.mem_of_find?_eq_some hfound)
  case h_2 =>
    simp only [bind_eq_ok] at h
    obtain ⟨⟨v, r₁⟩, hpush, h⟩ := h
    cases h
    obtain ⟨graph, hgraph, rfl⟩ := push_eq_ok hpush
    exact .binaryNew hkind hop hpopped hpushes hgraph

/-- The inversion of `nodeResult`. -/
theorem nodeResult_of {r : Rewriting} (hlen : n.pops ≤ r.stack.length)
    (h : nodeResult ctx n r = .ok (result, n', r')) : ResultOf ctx n r result n' r' := by
  unfold nodeResult at h
  split at h
  case h_1 hkind =>
    cases h
    exact .guard hkind
  case h_2 hkind =>
    simp only [bind_eq_ok, okOr_eq_ok] at h
    obtain ⟨v, hv, h⟩ := h
    cases h
    exact .reuse hkind hv
  case h_3 name hkind =>
    split at h
    case h_1 hop =>
      simp only [bind_eq_ok] at h
      obtain ⟨⟨result, r₁⟩, hheap, h⟩ := h
      cases h
      exact heapResult_of hlen hkind hop hheap
    case h_2 hop => exact callResult_of hkind hop h
    case h_3 value hop =>
      simp only [bind_eq_ok] at h
      obtain ⟨⟨v, r₁⟩, hpush, h⟩ := h
      cases h
      obtain ⟨graph, hgraph, rfl⟩ := push_eq_ok hpush
      exact .bool hkind hop hgraph
    case h_4 hop =>
      simp only [bind_eq_ok] at h
      obtain ⟨⟨result, r₁⟩, hconst, h⟩ := h
      cases h
      exact constantResult_of hkind hop hconst
    case h_5 hop =>
      simp only [bind_eq_ok, okOr_eq_ok] at h
      obtain ⟨slot, hslot, v, hv, h⟩ := h
      cases h
      exact .load hkind hop hslot hv
    case h_6 hop =>
      cases h
      exact .setSlot hkind hop
    case h_7 delta hop =>
      simp only [bind_eq_ok] at h
      obtain ⟨input, hinput, ⟨v, r₁⟩, hpush, h⟩ := h
      cases h
      obtain ⟨graph, hgraph, rfl⟩ := push_eq_ok hpush
      exact .update hkind hop hinput hgraph
    case h_8 op hop =>
      simp only [bind_eq_ok] at h
      obtain ⟨⟨lhs, rhs⟩, hoperands, ⟨v, r₁⟩, hpush, h⟩ := h
      cases h
      obtain ⟨graph, hgraph, rfl⟩ := push_eq_ok hpush
      obtain ⟨hpopped, hpushes⟩ := binaryOperands_eq_ok hoperands
      exact .bitwise hkind hop hpopped hpushes hgraph
    case h_9 op hop =>
      simp only [bind_eq_ok] at h
      obtain ⟨⟨lhs, rhs⟩, hoperands, ⟨v, r₁⟩, hpush, h⟩ := h
      cases h
      obtain ⟨graph, hgraph, rfl⟩ := push_eq_ok hpush
      obtain ⟨hpopped, hpushes⟩ := binaryOperands_eq_ok hoperands
      exact .compare hkind hop hpopped hpushes hgraph
    case h_10 op hop => exact binaryResult_of hkind hop h
    case h_11 hop =>
      cases h
      exact .other hkind hop

/-- What a result step leaves alone. -/
structure ResultFrame (n : OptimizedNode) (r : Rewriting) (n' : OptimizedNode) (r' : Rewriting) :
    Prop where
  grows : GrowsAt n.id r.graph r'.graph
  frame : r'.frame = r.frame
  stack : r'.stack = r.stack
  id : n'.id = n.id
  pc : n'.pc = n.pc
  bytes : n'.bytes = n.bytes
  pops : n'.pops = n.pops
  pushes : n'.pushes = n.pushes
  op : n'.op = n.op
  eliminated : n'.eliminated = n.eliminated
  states : r'.graph.frameStates = r.graph.frameStates
  guard : n'.deoptGuard = n.deoptGuard

theorem setHeapOperation_grows {operation : ScalarHeapOperation} {r : Rewriting} :
    GrowsAt id r.graph (setHeapOperation id operation r).graph := by
  refine .of_row rfl rfl rfl rfl fun m hm => ?_
  simp [setHeapOperation, row, Function.update_of_ne hm]

theorem ResultOf.frame {r : Rewriting} (h : ResultOf ctx n r result n' r') :
    ResultFrame n r n' r' := by
  cases h with
  | guard | reuse | constantNone | constantShared | load | setSlot | other | binaryShared =>
    exact ⟨.refl _ _, rfl, rfl, rfl, rfl, rfl, rfl, rfl, rfl, rfl, rfl, rfl⟩
  | propertyLoad _ _ _ _ _ hpush | elementLoad _ _ _ hpush =>
    exact ⟨(push_grows hpush).trans (setHeapOperation_grows (r := { r with graph := _ })),
      rfl, rfl, rfl, rfl, rfl, rfl, rfl, rfl, rfl, (push_pushes hpush).states, rfl⟩
  | propertyStore | elementStore =>
    exact ⟨setHeapOperation_grows, rfl, rfl, rfl, rfl, rfl, rfl, rfl, rfl, rfl, rfl, rfl⟩
  | call _ _ _ _ hcall hinline hpush =>
    have hpushes := (inlineCall_pushes hcall hinline).trans (push_pushes hpush)
    refine ⟨hpushes.toGrowsAt, rfl, rfl, ?_, ?_, ?_, ?_, ?_, ?_, ?_, hpushes.states, ?_⟩ <;>
      (split <;> rfl)
  | bool _ _ hpush | constantNew _ _ _ hpush | update _ _ _ hpush | bitwise _ _ _ _ hpush
  | compare _ _ _ _ hpush | binaryNew _ _ _ _ hpush =>
    exact ⟨push_grows hpush, rfl, rfl, rfl, rfl, rfl, rfl, rfl, rfl, rfl,
      (push_pushes hpush).states, rfl⟩

end QuickJit
