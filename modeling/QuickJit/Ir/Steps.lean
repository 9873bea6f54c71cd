import QuickJit.Ir.Growth

/-
  One turn of the node loop of `ScalarGraph::rewrite`, inverted.

  `LiveStep` lists what processing a node that is not eliminated consists of:
  the frame kept before it, its result (`ResultOf`), the slots it defines
  (`DefinesFrame`) and the values it pushes (`OutputOf`). An eliminated node
  only moves the stack (`rewriteEliminated_eq_ok`).
-/

namespace QuickJit

open Function Outcome ScalarGraph

open ScalarGraph (GrowsAt PushesAt)

variable {outputs : List Nat} {output : Nat} {n : OptimizedNode} {result : Option Nat}
  {ctx : RewriteContext}

/-! ## Captured frames -/

theorem mapM_expect {α β : Type} {f : α → Option β} :
    ∀ {l : List α} {bs : List β},
      l.mapM (fun a => (expect (f a) : CompileOutcome β)) = .ok bs → bs.map some = l.map f
  | [], bs, h => by
    rw [List.mapM_nil, pure_eq_ok] at h
    rw [← h]
    rfl
  | a :: l, bs, h => by
    simp only [List.mapM_cons, bind_eq_ok, expect_eq_ok, pure_eq_ok] at h
    obtain ⟨b, hb, bs', hbs, rfl⟩ := h
    rw [List.map_cons, List.map_cons, hb, mapM_expect hbs]

/-- The frame state kept for a node. -/
structure Captures (ctx : RewriteContext) (pc : Nat) (frame : FrameSlot → Option Nat)
    (stack : List Nat) (state : ScalarFrameState) : Prop where
  pc_eq : state.pc = pc
  arguments_eq : state.arguments.map some =
    (List.range ctx.shape.arguments).map fun i => frame (.argument i)
  locals_eq : state.locals.map some = (List.range ctx.shape.locals).map fun i => frame (.loc i)
  stack_eq : state.stack = stack
  parent_eq : state.parent = none

theorem captureFrame_eq_ok {id pc : Nat} {frame : FrameSlot → Option Nat} {stack : List Nat}
    {entries : Nat} {g g' : ScalarGraph} (h : captureFrame ctx id pc frame stack entries g = .ok g') :
    ∃ state total, Captures ctx pc frame stack state ∧
      g' = { g with
        stateEntries := total
        frameStates := update g.frameStates id (some state) } := by
  simp only [captureFrame] at h
  rw [ite_fail_eq_ok] at h
  simp only [bind_eq_ok] at h
  obtain ⟨-, arguments, harguments, locals, hlocals, h⟩ := h
  cases h
  exact ⟨_, _, ⟨rfl, mapM_expect harguments, mapM_expect hlocals, rfl, rfl⟩, rfl⟩

/-- Before a node: its frame is kept if it can leave optimized code. -/
inductive CaptureOf (ctx : RewriteContext) (n : OptimizedNode) (r : Rewriting) : Rewriting → Prop
  | captured {state total} : capturesFrame n = true → Captures ctx n.pc r.frame r.stack state →
      CaptureOf ctx n r { r with graph := { r.graph with
        stateEntries := total
        frameStates := Function.update r.graph.frameStates n.id (some state) } }
  | skipped : capturesFrame n = false → CaptureOf ctx n r r

theorem captureNode_of {r r' : Rewriting} (h : captureNode ctx n r = .ok r') :
    CaptureOf ctx n r r' := by
  unfold captureNode at h
  split at h
  case isTrue hcap =>
    simp only [bind_eq_ok] at h
    obtain ⟨graph, hgraph, h⟩ := h
    cases h
    obtain ⟨state, total, hstate, rfl⟩ := captureFrame_eq_ok hgraph
    exact .captured hcap hstate
  case isFalse hcap =>
    cases h
    exact .skipped (by simpa using hcap)

theorem CaptureOf.grows {r r' : Rewriting} (h : CaptureOf ctx n r r') :
    GrowsAt n.id r.graph r'.graph := by
  cases h with
  | captured hcap hstate =>
    refine .of_row rfl rfl rfl rfl fun m hm => ?_
    simp [row, update_of_ne hm]
  | skipped => exact .refl _ _

/-- Capturing a frame changes the graph only. -/
theorem CaptureOf.same {r r' : Rewriting} (h : CaptureOf ctx n r r') :
    r' = { r with graph := r'.graph } := by
  cases h <;> rfl

/-! ## Defined slots -/

/-- The value a node that writes one slot gives it. -/
inductive WrittenBy (n : OptimizedNode) (slot : FrameSlot) (result : Option Nat) (r : Rewriting) :
    Nat → Rewriting → Prop
  | bump {v} : n.opcode? = some .incLoc ∨ n.opcode? = some .decLoc → result = some v →
      WrittenBy n slot result r v r
  | store {v} : ¬(n.opcode? = some .incLoc ∨ n.opcode? = some .decLoc) →
      n.opcode?.any isFrameSlotStore = true → r.stack.getLast? = some v →
      WrittenBy n slot result r v r
  | read {v graph} : ¬(n.opcode? = some .incLoc ∨ n.opcode? = some .decLoc) →
      n.opcode?.any isFrameSlotStore = false →
      r.graph.push (.node n.id 0) (.frameRead n.id slot) = .ok (v, graph) →
      WrittenBy n slot result r v { r with graph }

theorem writtenValue_by {slot : FrameSlot} {r r' : Rewriting} {v : Nat}
    (h : writtenValue n slot result r = .ok (v, r')) :
    WrittenBy n slot result r v r' := by
  unfold writtenValue at h
  split at h
  case isTrue hbump =>
    simp only [bind_eq_ok, okOr_eq_ok] at h
    obtain ⟨v, hv, h⟩ := h
    cases h
    exact .bump hbump hv
  case isFalse hbump =>
    split at h
    case isTrue hstore =>
      simp only [bind_eq_ok, okOr_eq_ok] at h
      obtain ⟨v, hv, h⟩ := h
      cases h
      exact .store hbump hstore hv
    case isFalse hstore =>
      obtain ⟨graph, hgraph, rfl⟩ := Rewriting.push_eq_ok h
      exact .read hbump (by simpa using hstore) hgraph

/-- What a node does to the frame: the slots it defines and the new state. -/
inductive DefinesFrame (ctx : RewriteContext) (n : OptimizedNode) (result : Option Nat)
    (r : Rewriting) : List (FrameSlot × Nat) → Rewriting → Prop
  | pure : n.effect = .pure → DefinesFrame ctx n result r [] r
  | control : n.effect = .control → DefinesFrame ctx n result r [] { r with expressions := [] }
  | write {slot v r'} : n.effect = .frameWrite → frameWriteSlot n = some slot →
      WrittenBy n slot result { r with expressions := [] } v r' →
      DefinesFrame ctx n result r [(slot, v)]
        { r' with frame := Function.update r'.frame slot (some v) }
  | readAll {bindings graph} :
      n.effect = .frameWrite ∧ frameWriteSlot n = none ∨ n.effect = .reentrant ∨ n.effect = .poll →
      r.graph.allocate (.node n.id 0) (.frameRead n.id) ctx.slots = .ok (bindings, graph) →
      DefinesFrame ctx n result r bindings
        { r with graph, expressions := [], frame := bindingOf bindings }

theorem readFrame_eq_ok {r r' : Rewriting} {bindings : List (FrameSlot × Nat)}
    (h : readFrame ctx n r = .ok (bindings, r')) :
    ∃ graph, r.graph.allocate (.node n.id 0) (.frameRead n.id) ctx.slots = .ok (bindings, graph) ∧
      r' = { r with graph, frame := bindingOf bindings } := by
  simp only [readFrame, bind_eq_ok] at h
  obtain ⟨⟨bindings, graph⟩, hgraph, h⟩ := h
  cases h
  exact ⟨graph, hgraph, rfl⟩

theorem defineFrame_of {r r' : Rewriting} {definitions : List (FrameSlot × Nat)}
    (h : defineFrame ctx n result r = .ok (definitions, r')) :
    DefinesFrame ctx n result r definitions r' := by
  unfold defineFrame at h
  split at h
  case isTrue hpure =>
    cases h
    exact .pure hpure
  case isFalse hpure =>
    simp only at h
    split at h
    case isTrue hwrite =>
      split at h
      case h_1 slot hslot =>
        simp only [bind_eq_ok] at h
        obtain ⟨⟨v, r₁⟩, hv, h⟩ := h
        cases h
        exact .write hwrite hslot (writtenValue_by hv)
      case h_2 hslot =>
        obtain ⟨graph, hgraph, rfl⟩ := readFrame_eq_ok h
        exact .readAll (.inl ⟨hwrite, hslot⟩) hgraph
    case isFalse hwrite =>
      split at h
      case isTrue hcall =>
        obtain ⟨graph, hgraph, rfl⟩ := readFrame_eq_ok h
        exact .readAll (.inr hcall) hgraph
      case isFalse hcall =>
        cases h
        refine .control ?_
        cases heff : n.effect <;> simp_all

theorem DefinesFrame.pushes {r r' : Rewriting} {definitions : List (FrameSlot × Nat)}
    (h : DefinesFrame ctx n result r definitions r') : PushesAt n.id r.graph r'.graph := by
  cases h with
  | pure | control => exact .refl _ _
  | write _ _ hv =>
    cases hv with
    | bump | store => exact .refl _ _
    | read _ _ hpush => exact push_pushes hpush
  | readAll _ halloc => exact allocate_pushes halloc

theorem DefinesFrame.stack {r r' : Rewriting} {definitions : List (FrameSlot × Nat)}
    (h : DefinesFrame ctx n result r definitions r') : r'.stack = r.stack := by
  cases h with
  | pure | control | readAll => rfl
  | write _ _ hv => cases hv <;> rfl

theorem DefinesFrame.constants {r r' : Rewriting} {definitions : List (FrameSlot × Nat)}
    (h : DefinesFrame ctx n result r definitions r') : r'.constants = r.constants := by
  cases h with
  | pure | control | readAll => rfl
  | write _ _ hv => cases hv <;> rfl

/-- A node with an effect forgets the shared expressions. -/
theorem DefinesFrame.expressions {r r' : Rewriting} {definitions : List (FrameSlot × Nat)}
    (h : DefinesFrame ctx n result r definitions r') :
    r'.expressions = [] ∨ n.effect = .pure ∧ r'.expressions = r.expressions := by
  cases h with
  | pure hpure => exact .inr ⟨hpure, rfl⟩
  | control | readAll => exact .inl rfl
  | write _ _ hv => cases hv <;> exact .inl rfl

/-! ## Pushed values -/

/-- No opcode of its own kind pushes what this node pushes. -/
structure PlainOutput (n : OptimizedNode) (shuffled : Option (List Nat)) : Prop where
  receiver : n.opcode? ≠ some .getField2
  post : ¬(n.opcode? = some .postInc ∨ n.opcode? = some .postDec)
  shuffled_none : shuffled = none
  pair : n.opcode? ≠ some .getLoc0Loc1

/-- Where a pushed value comes from. -/
inductive OutputOf (n : OptimizedNode) (result : Option Nat) (shuffled : Option (List Nat))
    (r : Rewriting) (output : Nat) : Nat → Rewriting → Prop
  | receiver {operation} : n.opcode? = some .getField2 → output = 0 →
      r.graph.heapOperations n.id = some operation →
      OutputOf n result shuffled r output operation.location.base r
  | member {v} : n.opcode? = some .getField2 → output ≠ 0 → result = some v →
      OutputOf n result shuffled r output v r
  | post {v mode input delta} : n.opcode? = some .postInc ∨ n.opcode? = some .postDec →
      result = some v → r.graph.value? v = some (.update mode input delta) →
      OutputOf n result shuffled r output (if output = 0 then input else v) r
  | shuffle {values v} : shuffled = some values → values[output]? = some v →
      OutputOf n result shuffled r output v r
  | pair {v} : n.opcode? = some .getLoc0Loc1 → r.frame (.loc output) = some v →
      OutputOf n result shuffled r output v r
  | value {v} : PlainOutput n shuffled → output = 0 → result = some v →
      OutputOf n result shuffled r output v r
  | unknown {v graph} : PlainOutput n shuffled → (output = 0 → result = none) →
      r.graph.push (.node n.id output) .opaqueValue = .ok (v, graph) →
      OutputOf n result shuffled r output v { r with graph }

theorem nodeOutput_of {shuffled : Option (List Nat)} {r r' : Rewriting} {v : Nat}
    (h : nodeOutput n result shuffled r output = .ok (v, r')) :
    OutputOf n result shuffled r output v r' := by
  unfold nodeOutput at h
  split at h
  case isTrue hfield =>
    split at h
    case isTrue hzero =>
      simp only [bind_eq_ok, okOr_eq_ok] at h
      obtain ⟨operation, hoperation, h⟩ := h
      cases h
      exact .receiver hfield hzero hoperation
    case isFalse hzero =>
      simp only [bind_eq_ok, okOr_eq_ok] at h
      obtain ⟨v, hv, h⟩ := h
      cases h
      exact .member hfield hzero hv
  case isFalse hfield =>
    split at h
    case isTrue hpost =>
      simp only [bind_eq_ok, okOr_eq_ok] at h
      obtain ⟨v, hv, h⟩ := h
      split at h
      case h_1 hvalue =>
        cases h
        exact .post hpost hv hvalue
      case h_2 => cases h
    case isFalse hpost =>
      split at h
      case h_1 values =>
        simp only [bind_eq_ok, expect_eq_ok] at h
        obtain ⟨v, hv, h⟩ := h
        cases h
        exact .shuffle rfl hv
      case h_2 =>
        split at h
        case isTrue hpair =>
          simp only [bind_eq_ok, expect_eq_ok] at h
          obtain ⟨v, hv, h⟩ := h
          cases h
          exact .pair hpair hv
        case isFalse hpair =>
          have hplain : PlainOutput n none := ⟨hfield, hpost, rfl, hpair⟩
          split at h
          case h_1 =>
            cases h
            exact .value hplain rfl rfl
          case h_2 hne =>
            obtain ⟨graph, hgraph, rfl⟩ := Rewriting.push_eq_ok h
            refine .unknown hplain (fun h0 => ?_) hgraph
            cases hresult : result with
            | none => rfl
            | some v => exact (hne v h0 hresult).elim

/-- Pushing a value changes the graph only. -/
theorem OutputOf.same {shuffled : Option (List Nat)} {r r' : Rewriting} {v : Nat}
    (h : OutputOf n result shuffled r output v r') :
    r' = { r with graph := r'.graph } := by
  cases h <;> rfl

theorem OutputOf.pushes {shuffled : Option (List Nat)} {r r' : Rewriting} {v : Nat}
    (h : OutputOf n result shuffled r output v r') :
    PushesAt n.id r.graph r'.graph := by
  cases h with
  | unknown _ _ hpush => exact push_pushes hpush
  | _ => exact .refl _ _

/-- The values a node pushes, one after the other. -/
abbrev Outputs (n : OptimizedNode) (result : Option Nat) (shuffled : Option (List Nat))
    (r : Rewriting) (outputs : List Nat) (r' : Rewriting) : Prop :=
  Collects (nodeOutput n result shuffled) r (List.range n.pushes) outputs r'

/-- Pushing values changes the graph only, and none of its tables. -/
structure OutputsFrame (n : OptimizedNode) (r r' : Rewriting) : Prop where
  pushes : PushesAt n.id r.graph r'.graph
  same : r' = { r with graph := r'.graph }

theorem OutputsFrame.trans {a b c : Rewriting} (h : OutputsFrame n a b) (h' : OutputsFrame n b c) :
    OutputsFrame n a c :=
  ⟨h.pushes.trans h'.pushes, by rw [h'.same, h.same]⟩

theorem Collects.output_frame {shuffled : Option (List Nat)} {r r' : Rewriting} {indices : List Nat}
    (h : Collects (nodeOutput n result shuffled) r indices outputs r') : OutputsFrame n r r' :=
  h.rel (fun _ => ⟨.refl _ _, rfl⟩) OutputsFrame.trans
    (fun _ hstep => ⟨(nodeOutput_of hstep).pushes, (nodeOutput_of hstep).same⟩)

/-- Each pushed value is one output, between the states before and after all. -/
theorem Collects.output_get {shuffled : Option (List Nat)} {r r' : Rewriting} {indices : List Nat}
    (h : Collects (nodeOutput n result shuffled) r indices outputs r') {j k v : Nat}
    (hk : indices[j]? = some k) (hv : outputs[j]? = some v) :
    ∃ r₁ r₂, OutputsFrame n r r₁ ∧ OutputOf n result shuffled r₁ k v r₂ ∧ OutputsFrame n r₂ r' := by
  induction h generalizing j with
  | nil => cases hk
  | @cons r k₀ v₀ r₁ indices outputs r' hstep hrest ih =>
    cases j with
    | zero =>
      cases hk
      cases hv
      exact ⟨r, r₁, ⟨.refl _ _, rfl⟩, nodeOutput_of hstep, hrest.output_frame⟩
    | succ j =>
      rw [List.getElem?_cons_succ] at hk hv
      obtain ⟨r₂, r₃, hbefore, hout, hafter⟩ := ih hk hv
      have hfirst : OutputsFrame n r r₁ :=
        ⟨(nodeOutput_of hstep).pushes, (nodeOutput_of hstep).same⟩
      exact ⟨r₂, r₃, hfirst.trans hbefore, hout, hafter⟩

/-! ## The whole turn -/

theorem recordNode_grows {definitions : List (FrameSlot × Nat)} {g : ScalarGraph} :
    GrowsAt n.id g (recordNode n definitions outputs result g) := by
  refine .of_row rfl rfl rfl rfl fun m hm => ?_
  simp [recordNode, row, update_of_ne hm]

/-- The parts of `rewriteLive`. -/
structure LiveStep (ctx : RewriteContext) (n : OptimizedNode) (r : Rewriting) (n' : OptimizedNode)
    (r' r₁ r₂ r₃ r₄ : Rewriting) (result : Option Nat) (shuffled : Option (List Nat))
    (definitions : List (FrameSlot × Nat)) (outputs : List Nat) : Prop where
  capture : CaptureOf ctx n r r₁
  result_of : ResultOf ctx n r₁ result n' r₂
  shuffle : shuffledValues n' r₂ = .ok shuffled
  define : DefinesFrame ctx n' result r₂ definitions r₃
  outputs_of : Outputs n' result shuffled r₃ outputs r₄
  state_eq : r' = { r₄ with
    graph := recordNode n' definitions outputs result r₄.graph
    stack := r.stack.take (r.stack.length - n.pops) ++ outputs }

theorem rewriteLive_eq_ok {n' : OptimizedNode} {r r' : Rewriting} (hlen : n.pops ≤ r.stack.length)
    (h : rewriteLive ctx n r = .ok (n', r')) :
    ∃ r₁ r₂ r₃ r₄ result shuffled definitions outputs,
      LiveStep ctx n r n' r' r₁ r₂ r₃ r₄ result shuffled definitions outputs := by
  simp only [rewriteLive, bind_eq_ok] at h
  obtain ⟨r₁, hcapture, ⟨result, n₁, r₂⟩, hresult, shuffled, hshuffled, ⟨definitions, r₃⟩, hdefine,
    ⟨outputs, r₄⟩, houtputs, h⟩ := h
  cases h
  have hcap := captureNode_of hcapture
  have hstack : r₁.stack = r.stack := by rw [hcap.same]
  have hof := nodeResult_of (hstack ▸ hlen) hresult
  have hdef := defineFrame_of hdefine
  have hout := collectM_eq_ok houtputs
  refine ⟨r₁, r₂, r₃, r₄, result, shuffled, definitions, outputs, hcap, hof, hshuffled, hdef, hout, ?_⟩
  have hstack₄ : r₄.stack = r.stack := by
    rw [hout.output_frame.same, ← hstack, ← hof.frame.stack]
    exact hdef.stack
  simp only [hstack₄, hof.frame.pops]

namespace LiveStep

variable {ctx : RewriteContext} {n n' : OptimizedNode} {r r' r₁ r₂ r₃ r₄ : Rewriting}
  {result : Option Nat} {shuffled : Option (List Nat)} {definitions : List (FrameSlot × Nat)}
  {outputs : List Nat}

variable (h : LiveStep ctx n r n' r' r₁ r₂ r₃ r₄ result shuffled definitions outputs)

include h

theorem id_eq :
    n'.id = n.id := h.result_of.frame.id

/-- From the moment the result is known on, the graph only grows. -/
theorem grows₃ :
    GrowsAt n.id r₃.graph r'.graph := by
  rw [h.state_eq, ← h.id_eq]
  exact h.outputs_of.output_frame.pushes.toGrowsAt.trans recordNode_grows

theorem grows₂ :
    GrowsAt n.id r₂.graph r'.graph :=
  (h.id_eq ▸ h.define.pushes.toGrowsAt : GrowsAt n.id r₂.graph r₃.graph).trans h.grows₃

theorem grows₁ :
    GrowsAt n.id r₁.graph r'.graph :=
  h.result_of.frame.grows.trans h.grows₂

theorem grows :
    GrowsAt n.id r.graph r'.graph := h.capture.grows.trans h.grows₁

theorem stack_eq :
    r'.stack = r.stack.take (r.stack.length - n.pops) ++ outputs := by rw [h.state_eq]

theorem frame_eq :
    r'.frame = r₃.frame := by rw [h.state_eq, h.outputs_of.output_frame.same]

theorem constants_eq :
    r'.constants = r₂.constants := by
  rw [h.state_eq, ← h.define.constants, h.outputs_of.output_frame.same]

theorem expressions_eq :
    r'.expressions = r₃.expressions := by rw [h.state_eq, h.outputs_of.output_frame.same]

/-- The node keeps the frame that was captured before it. -/
theorem states_eq :
    r'.graph.frameStates = r₁.graph.frameStates := by
  rw [h.state_eq]
  exact h.outputs_of.output_frame.pushes.states.trans
    (h.define.pushes.states.trans h.result_of.frame.states)

end LiveStep

theorem Collects.opaque_get {id : Nat} {r r' : Rewriting} {ks : List Nat}
    (h : Collects (fun r k => r.push id k .opaqueValue) r ks outputs r') :
    GrowsAt id r.graph r'.graph ∧
      r' = { r with graph := { r.graph with definitions := r'.graph.definitions } } ∧
      ∀ {j k v : Nat}, ks[j]? = some k → outputs[j]? = some v →
        r'.graph.definitions[v]? = some ⟨.opaqueValue, .node id k⟩ := by
  induction h with
  | nil => exact ⟨.refl _ _, rfl, fun h => by simp at h⟩
  | @cons r k v r₁ ks outputs r' hstep _ ih =>
    obtain ⟨graph, hgraph, rfl⟩ := Rewriting.push_eq_ok hstep
    obtain ⟨hgrows, hsame, hget⟩ := ih
    refine ⟨(push_grows hgraph).trans hgrows, ?_, fun {j k' v'} hk hv => ?_⟩
    · obtain ⟨-, rfl⟩ := push_eq_ok hgraph
      rw [hsame]
    cases j with
    | zero =>
      rw [List.getElem?_cons_zero] at hk hv
      cases hk
      cases hv
      exact hgrows.get (push_get hgraph)
    | succ j =>
      rw [List.getElem?_cons_succ] at hk hv
      exact hget hk hv

/-- What an eliminated node does: it moves the stack, and is pure for the heap. -/
structure EliminatedStep (n : OptimizedNode) (r r' : Rewriting) (outputs : List Nat) : Prop where
  outputs_get : ∀ {k v : Nat}, outputs[k]? = some v →
    r'.graph.definitions[v]? = some ⟨.opaqueValue, .node n.id k⟩
  outputs_length : outputs.length = n.pushes
  grows : GrowsAt n.id r.graph r'.graph
  frame_eq : r'.frame = r.frame
  expressions_eq : r'.expressions = r.expressions
  constants_eq : r'.constants = r.constants
  stack_eq : r'.stack = r.stack.take (r.stack.length - n.pops) ++ outputs
  frameState_eq : r'.graph.frameStates n.id = r.graph.frameStates n.id
  nodeValue_eq : r'.graph.nodeValues n.id = r.graph.nodeValues n.id
  heapEffect_eq : r'.graph.heapEffects n.id = .pure

theorem rewriteEliminated_eq_ok {n' : OptimizedNode} {r r' : Rewriting}
    (h : rewriteEliminated n r = .ok (n', r')) :
    n' = n ∧ ∃ outputs, EliminatedStep n r r' outputs := by
  simp only [rewriteEliminated, bind_eq_ok] at h
  obtain ⟨⟨outputs, r₁⟩, houtputs, h⟩ := h
  cases h
  have hcollects := collectM_eq_ok houtputs
  obtain ⟨hgrows, hsame, hget⟩ := hcollects.opaque_get
  have hlength : outputs.length = n.pushes := by rw [hcollects.length, List.length_range]
  have hrow : GrowsAt n.id r₁.graph { r₁.graph with
      heapEffects := update r₁.graph.heapEffects n.id .pure } := by
    refine .of_row rfl rfl rfl rfl fun m hm => ?_
    simp [row, update_of_ne hm]
  refine ⟨rfl, outputs, fun {k v} hk => ?_, hlength, hgrows.trans hrow, ?_, ?_, ?_, ?_, ?_, ?_, ?_⟩
  · have hlt : k < n.pushes := hlength ▸ (List.getElem?_eq_some_iff.mp hk).1
    exact hget (List.getElem?_range hlt) hk
  · rw [hsame]
  · rw [hsame]
  · rw [hsame]
  · rw [hsame]
  · rw [hsame]
  · rw [hsame]
  · exact update_self ..

end QuickJit
