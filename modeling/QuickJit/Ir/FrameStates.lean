import QuickJit.Ir.Runs

/-
  Frame states are exact.

  A frame state lists one value of the graph for each argument, local and stack
  slot of the interpreter's frame. `frame_states_exact` is about every run of
  the bytecode: the state of the node that comes next evaluates, slot by slot,
  to what the machine holds, and every node that can leave optimized code has
  one. A deoptimization there rebuilds the interpreter's frame.
-/

namespace QuickJit

variable {ir : OptimizedIr} {state : ScalarFrameState}

section

variable {V : Type} [Scalars V]

/-- A frame state that rebuilds the frame of the machine at `pc`. -/
structure ScalarFrameState.Exact (state : ScalarFrameState) (shape : OptimizedFrameShape) (pc : Nat)
    (m : Machine V) (env : Nat → Option V) : Prop where
  pc_eq : state.pc = pc
  arguments : state.arguments.map env =
    (List.range shape.arguments).map fun i => some (m.frame (.argument i))
  locals : state.locals.map env = (List.range shape.locals).map fun i => some (m.frame (.loc i))
  stack : state.stack.map env = m.stack.map some
  parent_eq : state.parent = none

/-- A node that can leave optimized code with a frame of its own. -/
def OptimizedNode.canExit (n : OptimizedNode) : Bool :=
  !n.eliminated && n.deoptGuard.isSome &&
    match n.kind with
    | .reuse _ => false
    | _ => true

variable {ctx : RewriteContext}
  {ir : OptimizedIr} {exits : Exits} {G : ScalarGraph} {pc lo id : Nat}
  {available : List (ExpressionKey × Nat)} {pending : Pending} {r r' : Rewriting} {m : Machine V}
  {env : Nat → Option V} {base hidden : List V} {n n' : OptimizedNode} {ns : List OptimizedNode}

omit [Scalars V] in
theorem map_captured {f : Nat → Option Nat} {g : Nat → V}
    (h : ∀ i v, f i = some v → env v = some (g i)) :
    ∀ {values indices : List Nat}, values.map some = indices.map f →
      values.map env = indices.map fun i => some (g i)
  | [], [], _ => rfl
  | [], _ :: _, hv => by cases hv
  | _ :: _, [], hv => by cases hv
  | v :: values, i :: indices, hv => by
    rw [List.map_cons, List.map_cons, List.cons.injEq] at hv
    rw [List.map_cons, List.map_cons, h i v hv.1.symm, map_captured h hv.2]

omit [Scalars V] in
/-- Values that hold what the machine has make an exact state. -/
theorem Captures.exact {frame : FrameSlot → Option Nat} {stack : List Nat}
    (h : Captures ctx pc frame stack state)
    (hframe : ∀ slot v, frame slot = some v → env v = some (m.frame slot))
    (hstack : List.Forall₂ (fun v x => env v = some x) stack m.stack) :
    state.Exact ctx.shape pc m env := by
  refine ⟨h.pc_eq, map_captured (fun i v => hframe _ v) h.arguments_eq,
    map_captured (fun i v => hframe _ v) h.locals_eq, ?_, h.parent_eq⟩
  rw [h.stack_eq, ← List.forall₂_eq_eq_eq, List.forall₂_map_left_iff, List.forall₂_map_right_iff]
  exact hstack

/-- A live node of its own is met with nothing hidden. -/
theorem Simulates.live_core
    (hsim : Simulates G pc lo id available pending r m env base hidden)
    (haligned : Aligned ctx.modes available pending (n :: ns)) (hlive : n.eliminated = false)
    (hkind : ∀ source, n.kind ≠ .reuse source) : Core G pc lo id r m env := by
  have hvisible : hidden = [] → Core G pc lo id r m env := by
    intro hnil
    have hbase : base = m.stack := by rw [hsim.stack_eq, hnil, List.append_nil]
    have hcore := hsim.core
    rw [hbase] at hcore
    exact hcore
  cases haligned with
  | keep | first => exact hsim.clear_core
  | second hload =>
    obtain ⟨n₀, op, -, -, -, rfl⟩ := hload
    split at hlive
    case isTrue huse =>
      subst huse
      exact hvisible hsim.pending.1
    case isFalse => cases hlive
  | define => exact hvisible hsim.pending.1
  | reuse => exact absurd rfl (hkind _)
  | dead | drop => cases hlive

/-- The state a node keeps is the one captured before it. -/
theorem rewriteNode_states (hrewrite : rewriteNode ctx r n = .ok (n', r'))
    (hunset : r.graph.Unset n.id) (hstate : r'.graph.frameStates n.id = some state) :
    n.eliminated = false ∧ (∀ source, n.kind ≠ .reuse source) ∧
      Captures ctx n.pc r.frame r.stack state := by
  have hnone : r.graph.frameStates n.id = none := congrArg (·.1) hunset
  cases helim : n.eliminated with
  | true =>
    obtain ⟨-, outputs, h⟩ := rewriteNode_eliminated hrewrite helim
    rw [h.frameState_eq, hnone] at hstate
    cases hstate
  | false =>
    obtain ⟨-, _, _, _, _, _, _, _, _, h⟩ := rewriteNode_live hrewrite helim
    rw [h.states_eq] at hstate
    cases h.capture with
    | captured hcap hcaptures =>
      cases (Function.update_self ..).symm.trans hstate
      refine ⟨rfl, fun source hk => ?_, hcaptures⟩
      simp only [capturesFrame, hk, Bool.and_false] at hcap
      cases hcap
    | skipped => cases hnone.symm.trans hstate

/-- A node that can leave optimized code keeps a state. -/
theorem rewriteNode_canExit (hrewrite : rewriteNode ctx r n = .ok (n', r'))
    (hexit : n'.canExit = true) : ∃ state, r'.graph.frameStates n.id = some state := by
  simp only [OptimizedNode.canExit, Bool.and_eq_true, Bool.not_eq_true'] at hexit
  obtain ⟨⟨hlive, hguard⟩, hkind⟩ := hexit
  cases helim : n.eliminated with
  | true =>
    obtain ⟨rfl, -⟩ := rewriteNode_eliminated hrewrite helim
    cases hlive.symm.trans helim
  | false =>
    obtain ⟨-, _, _, _, _, _, _, _, _, h⟩ := rewriteNode_live hrewrite helim
    rw [h.states_eq]
    cases h.capture with
    | captured => exact ⟨_, Function.update_self ..⟩
    | skipped hcap =>
      rw [h.result_of.frame.guard] at hguard
      simp only [capturesFrame, hguard, Bool.true_or, Bool.true_and] at hcap
      -- Only a node that reuses another one is skipped, and it stays as it is.
      split at hcap
      case h_1 source hk =>
        rw [(h.result_of.of_reuse hk).1, hk] at hkind
        cases hkind
      case h_2 => cases hcap

/-- The frame state of the next node is what the pass holds on to before it. -/
theorem Located.captured {c : Config V} {rest : List OptimizedNode}
    (h : Located ctx ir exits c) (hrest : c.rest = n :: rest)
    (hstate : ir.graph.frameStates n.id = some state) :
    ∃ lo b₀ r₀ r₁ id r ns available pending base hidden,
      At ctx ir exits c lo b₀ r₀ r₁ id r ns available pending base hidden ∧
      Captures ctx n.pc r.frame r.stack state ∧
      Core ir.graph c.block.startPc lo id r c.machine c.env := by
  obtain ⟨lo, b₀, r₀, r₁, id, r, ns, available, pending, base, hidden, hat⟩ := h
  have htrace := hat.trace
  rw [hrest] at htrace
  cases htrace with
  | @cons _ n₀ _ r' ns₁ _ _ hrewrite hunset hsettled htrace =>
    have hid := (rewriteNode_grows hrewrite).1
    have hstates : ir.graph.frameStates n.id = r'.graph.frameStates n₀.id := by
      rw [hid]
      exact congrArg (·.1) hsettled.row
    rw [hstates] at hstate
    obtain ⟨hlive, hkind, hcaptures⟩ := rewriteNode_states hrewrite hunset hstate
    have hpc : n.pc = n₀.pc := by
      obtain ⟨-, _, _, _, _, _, _, _, _, hstep⟩ := rewriteNode_live hrewrite hlive
      exact hstep.result_of.frame.pc
    rw [hpc]
    exact ⟨lo, b₀, r₀, r₁, id, r, _, available, pending, base, hidden, hat, hcaptures,
      hat.simulates.live_core hat.aligned hlive hkind⟩

/-- A node that can leave optimized code has a frame state. -/
theorem Located.exit_state {c : Config V} {rest : List OptimizedNode}
    (h : Located ctx ir exits c) (hrest : c.rest = n :: rest) (hexit : n.canExit = true) :
    ∃ state, ir.graph.frameStates n.id = some state := by
  obtain ⟨lo, b₀, r₀, r₁, id, r, ns, available, pending, base, hidden, hat⟩ := h
  have htrace := hat.trace
  rw [hrest] at htrace
  cases htrace with
  | @cons _ n₀ _ r' ns₁ _ _ hrewrite hunset hsettled htrace =>
    obtain ⟨state, hstate⟩ := rewriteNode_canExit hrewrite hexit
    refine ⟨state, ?_⟩
    rw [(rewriteNode_grows hrewrite).1]
    exact (congrArg (·.1) hsettled.row).trans hstate

/-- At every point of a run the state of the next node is exact. -/
theorem Located.state_exact {c : Config V} {rest : List OptimizedNode}
    (h : Located ctx ir exits c) (hrest : c.rest = n :: rest) :
    (∀ state, ir.graph.frameStates n.id = some state →
      state.Exact ctx.shape n.pc c.machine c.env) ∧
    (n.canExit = true → ∃ state, ir.graph.frameStates n.id = some state) := by
  refine ⟨fun state hstate => ?_, h.exit_state hrest⟩
  obtain ⟨_, _, _, _, _, _, _, _, _, _, _, _, hcaptures, hcore⟩ := h.captured hrest hstate
  exact hcaptures.exact (fun slot v hv => (hcore.frame hv).value)
    (hcore.stack.imp fun _ _ hx => hx.value)

omit [Scalars V] in
/-- The state of the entry guard is the initial frame. -/
theorem entry_state_exact (hir : IrOf ctx ir exits) {b : OptimizedBlock}
    (hb : ir.block? 0 = some b) (frame : FrameSlot → V) :
    ∃ state, ir.graph.frameStates ir.entry.id = some state ∧
      state.Exact ctx.shape ir.entry.pc (Config.start ir.graph b frame).machine
        (Config.start ir.graph b frame).env := by
  obtain ⟨state, bindings, hstate, hcaptures, hvalues⟩ := hir.entry_state
  obtain ⟨-, hpc⟩ := (OptimizedIr.block?_iff hir.starts).mp hb
  refine ⟨state, hstate, hcaptures.exact (fun slot v hv => ?_) .nil⟩
  rcases hvalues (bindingOf_mem hv) with hv | hv <;>
    simp [Config.start, ScalarGraph.envEnter, ScalarGraph.startEnv, ScalarValue.entering, hv, hpc]

end

/-! ## Every run -/

/-- In every run of a translated function, the frame state of the next node
evaluates to the machine's frame, and nodes that can leave optimized code have
one; the entry guard's is the initial frame. Arithmetic may give any result that
depends on the operation, its contract and its operands only; calls, property
and element accesses and opaque operations may give any result, and those of
them with an effect may change any slot. -/
theorem frame_states_exact {table : OpcodeTable} (ht : table.Standard) {fuel fuel' : Nat}
    {snapshot : CompileSnapshot} {limits : VerifyLimits} {f : VerifiedFunction}
    (hv : verify table fuel snapshot limits = .ok f) {feedbackEpoch : Nat}
    {modes : OrdMap Nat ScalarNumericMode} {inlineCallees : OrdMap Nat InlineCallee}
    {ir : OptimizedIr}
    (hir : OptimizedIr.translate fuel' f feedbackEpoch modes inlineCallees = .ok ir)
    {V W : Type} [Scalars V] (rules : Rules V W)
    (hreg : ∀ {c w n e w'}, rules.node c w n e w' → Regular modes c.machine n e)
    (frame : FrameSlot → V) (world : W) :
    (∃ b state, ir.block? 0 = some b ∧ ir.graph.frameStates ir.entry.id = some state ∧
      state.Exact (OptimizedIr.frameShape f) ir.entry.pc (Config.start ir.graph b frame).machine
        (Config.start ir.graph b frame).env) ∧
    ∀ {c w}, Run ir rules frame world c w → ∀ {n rest}, c.rest = n :: rest →
      (∀ state, ir.graph.frameStates n.id = some state →
        state.Exact (OptimizedIr.frameShape f) n.pc c.machine c.env) ∧
      (n.canExit = true → ∃ state, ir.graph.frameStates n.id = some state) := by
  obtain ⟨ctx, exits, rfl, hshape, hof⟩ := translate_irOf ht hv hir
  rw [← hshape]
  refine ⟨?_, fun hrun _ _ hrest => (run_located hof hreg hrun).state_exact hrest⟩
  obtain ⟨b, hb, -⟩ := hof.entry_block
  obtain ⟨state, hstate, hexact⟩ := entry_state_exact hof hb frame
  exact ⟨b, state, hb, hstate, hexact⟩

/-! ## Concrete functions -/

theorem sampleTable_standard : sampleTable.Standard := by
  have hrows : ∀ row ∈ sampleRows, ((standardShape row.name).all fun shape =>
      (row.size, row.nPop, row.nPush) = shape &&
        row.format ∉ [OperandFormat.nPop, .nPopU16, .nPopFixed]) = true ∧
      row.name ≠ .tailCall ∧ row.name ≠ .tailCallMethod := by
    decide
  refine ⟨fun hrow hshape => ?_, fun hrow hname => ?_⟩
  · have h := (hrows _ (List.mem_of_find?_eq_some hrow)).1
    rw [hshape, Option.all_some, Bool.and_eq_true, decide_eq_true_eq, decide_eq_true_eq] at h
    exact h
  · obtain ⟨-, htail, hmethod⟩ := hrows _ (List.mem_of_find?_eq_some hrow)
    rcases hname with h | h
    · exact absurd h htail
    · exact absurd h hmethod

instance : Scalars Int where
  int c := c
  bool b := if b then 1 else 0
  arith
    | .add, _, a, b => a + b
    | .sub, _, a, b => a - b
    | .mul, _, a, b => a * b
    | .div, _, a, b => a / b

/-- Runs whose events satisfy `P`. -/
def Rules.forEvents (P : Machine Int → OptimizedNode → Event Int → Prop) : Rules Int Unit where
  node c _ n e _ := P c.machine n e
  edge _ _ _ _ := True

/-- Execute the next nodes of a block. -/
def Config.exec (g : ScalarGraph) (c : Config Int) :
    List (Machine Int → OptimizedNode → Event Int) → Config Int
  | [] => c
  | e :: es =>
    match c.rest with
    | n :: rest => (c.after g n rest (e c.machine n)).exec g es
    | [] => c

theorem Run.exec {P : Machine Int → OptimizedNode → Event Int → Prop} {frame : FrameSlot → Int} :
    ∀ {es : List (Machine Int → OptimizedNode → Event Int)} {c : Config Int},
      Run ir (.forEvents P) frame () c () →
      (∀ n ∈ c.rest.take es.length, ∀ e ∈ es, ∀ m, P m n (e m n)) →
      Run ir (.forEvents P) frame () (c.exec ir.graph es) ()
  | [], _, h, _ => h
  | e :: es, c, h, hP => by
    rw [Config.exec]
    split
    case h_1 n rest hrest =>
      rw [hrest, List.length_cons, List.take_succ_cons] at hP
      exact (h.node hrest (hP n List.mem_cons_self e List.mem_cons_self _)).exec
        fun n' hn' e' he' => hP n' (List.mem_cons_of_mem _ hn') e' (List.mem_cons_of_mem _ he')
    case h_2 => exact h

/-- An event in which arithmetic has its result and nothing else happens. -/
def regularEvent (m : Machine Int) (n : OptimizedNode) : Event Int where
  results _ := match n.op.bind fun op => ScalarBinaryOp.fromOpcode op.name, m.stack.reverse with
    | some bop, b :: a :: _ => Scalars.arith bop (modeAt OrdMap.empty n.pc) a b
    | _, _ => 0
  slots := m.frame

theorem regularEvent_regular (m : Machine Int) (n : OptimizedNode) :
    Regular OrdMap.empty m n (regularEvent m n) where
  arithmetic hop hbop _ _ _ hstack := by simp [regularEvent, hop, hbop, hstack]
  poll _ := rfl

/-- `do x += y while (x < a)`, a loop at pc 0. -/
def sumLoopBytecode : List UInt8 := [203, 204, 156, 207, 203, 215, 165, 241, 248, 203, 40]

theorem sumLoop_verified : (verify sampleTable 20 (sampleSnapshot sumLoopBytecode 1 2 4)
    VerifyLimits.default).isOk = true := by
  decide

def sumLoop : VerifiedFunction := Outcome.value sumLoop_verified

theorem sumLoop_translated :
    (OptimizedIr.translate 20 sumLoop 1 OrdMap.empty OrdMap.empty).isOk = true := by
  decide

def sumLoopIr : OptimizedIr := Outcome.value sumLoop_translated

/-- The loop starts with 2 in `x` and 3 elsewhere. -/
def sumLoopFrame (slot : FrameSlot) : Int := if slot = .loc 0 then 2 else 3

/-- The end of the first round. -/
def sumLoopRound (b : OptimizedBlock) : Config Int :=
  (Config.start sumLoopIr.graph b sumLoopFrame).exec sumLoopIr.graph
    (List.replicate b.nodes.length regularEvent)

theorem sumLoop_round : (sumLoopIr.block? 0).any (fun b => (sumLoopRound b).rest.isEmpty &&
    (0 ∈ (sumLoopRound b).block.successors) && (sumLoopRound b).machine.frame (.loc 0) = 5 &&
    b.nodes.head?.any fun n => n.isPoll && n.canExit) = true := by
  decide

/-- Once round the loop `x` is 5, and the frame state of the header guard is the
frame. -/
theorem sumLoop_frame_states_exact : ∃ c n rest state,
    Run sumLoopIr (.forEvents (Regular OrdMap.empty)) sumLoopFrame () c () ∧
      c.machine.frame (.loc 0) = 5 ∧ c.rest = n :: rest ∧ n.isPoll = true ∧
      sumLoopIr.graph.frameStates n.id = some state ∧
      state.Exact (OptimizedIr.frameShape sumLoop) n.pc c.machine c.env := by
  obtain ⟨b, hb, hfacts⟩ := Option.any_eq_true _ _ |>.mp sumLoop_round
  simp only [Bool.and_eq_true, decide_eq_true_eq, List.isEmpty_iff] at hfacts
  obtain ⟨⟨⟨hend, hsucc⟩, hx⟩, hhead⟩ := hfacts
  obtain ⟨n, hn, hguard⟩ := Option.any_eq_true _ _ |>.mp hhead
  obtain ⟨rest, hrest⟩ := List.head?_eq_some_iff.mp hn
  rw [Bool.and_eq_true] at hguard
  have hround : Run sumLoopIr (.forEvents (Regular OrdMap.empty)) sumLoopFrame ()
      (sumLoopRound b) () := by
    refine (Run.start hb).exec fun n _ e he m => ?_
    rw [List.eq_of_mem_replicate he]
    exact regularEvent_regular m n
  have hrun : Run sumLoopIr (.forEvents (Regular OrdMap.empty)) sumLoopFrame ()
      ((sumLoopRound b).enter sumLoopIr.graph b) () := hround.edge hend hsucc hb trivial
  have hpoint := (frame_states_exact sampleTable_standard (Outcome.eq_ok_value sumLoop_verified)
    (Outcome.eq_ok_value sumLoop_translated) (.forEvents (Regular OrdMap.empty)) (fun h => h)
    sumLoopFrame ()).2 hrun hrest
  obtain ⟨state, hstate⟩ := hpoint.2 hguard.2
  exact ⟨_, n, rest, state, hrun, hx, hrest, hguard.1, hstate, hpoint.1 state hstate⟩

/-! ## Events the graph is not built for -/

/-- `(x + y) < (x + y)`. -/
def sharedSumBytecode : List UInt8 := [203, 204, 156, 203, 204, 156, 165, 40]

theorem sharedSum_verified : (verify sampleTable 20 (sampleSnapshot sharedSumBytecode 0 2 4)
    VerifyLimits.default).isOk = true := by
  decide

def sharedSum : VerifiedFunction := Outcome.value sharedSum_verified

theorem sharedSum_translated :
    (OptimizedIr.translate 20 sharedSum 1 OrdMap.empty OrdMap.empty).isOk = true := by
  decide

def sharedSumIr : OptimizedIr := Outcome.value sharedSum_translated

/-- The next node has a frame state whose stack is not the machine's. -/
def Config.wrongStack (ir : OptimizedIr) (c : Config Int) : Bool :=
  match c.rest with
  | n :: _ => (ir.graph.frameStates n.id).any fun state =>
      state.stack.map c.env ≠ c.machine.stack.map some
  | [] => false

theorem Config.wrongStack_inexact {c : Config Int} (h : c.wrongStack ir = true) :
    ∃ n rest state, c.rest = n :: rest ∧ ir.graph.frameStates n.id = some state ∧
      ∀ shape pc, ¬state.Exact shape pc c.machine c.env := by
  unfold wrongStack at h
  split at h
  case h_1 n rest hrest =>
    obtain ⟨state, hstate, hne⟩ := Option.any_eq_true _ _ |>.mp h
    exact ⟨n, rest, state, hrest, hstate, fun _ _ hexact => of_decide_eq_true hne hexact.stack⟩
  case h_2 => cases h

/-- A slot holds 1 after the event, and the event's results are `x`. -/
def eventOf (x : Int) (_ : Machine Int) (_ : OptimizedNode) : Event Int where
  results _ := x
  slots _ := 1

/-- The first of two sums gets the sum of its operands as its result, the second
another one: it shares the value of the first. -/
theorem sharedSum_wrong : (sharedSumIr.block? 0).any (fun b =>
    ((Config.start sharedSumIr.graph b fun _ => (0 : Int)).exec sharedSumIr.graph
      [eventOf 0, eventOf 0, eventOf 0, eventOf 0, eventOf 0, eventOf 2]).wrongStack sharedSumIr &&
    b.nodes.all fun n => !n.isPoll) = true := by
  decide

/-- A poll at a loop header that changes a local: the graph keeps the old value. -/
theorem sumLoop_poll_wrong : (sumLoopIr.block? 0).any (fun b =>
    ((Config.start sumLoopIr.graph b fun _ => (0 : Int)).exec sumLoopIr.graph
      [eventOf 0, eventOf 0, eventOf 0]).wrongStack sumLoopIr &&
    (b.nodes.take 3).all fun n => (n.op.bind fun op => ScalarBinaryOp.fromOpcode op.name).isNone)
      = true := by
  decide

/-- Frame states are wrong when arithmetic is arbitrary at each occurrence, also
if polls leave the frame alone; and when the poll of a loop header changes a
local, also if arithmetic is regular. -/
theorem arbitrary_events_inexact :
    (∃ f ir c n rest state, verify sampleTable 20 (sampleSnapshot sharedSumBytecode 0 2 4)
        VerifyLimits.default = .ok f ∧
      OptimizedIr.translate 20 f 1 OrdMap.empty OrdMap.empty = .ok ir ∧
      Run ir (.forEvents fun m n e => n.isPoll = true → e.slots = m.frame) (fun _ => 0) () c () ∧
      c.rest = n :: rest ∧ ir.graph.frameStates n.id = some state ∧
      ¬state.Exact (OptimizedIr.frameShape f) n.pc c.machine c.env) ∧
    ∃ f ir c n rest state, verify sampleTable 20 (sampleSnapshot sumLoopBytecode 1 2 4)
        VerifyLimits.default = .ok f ∧
      OptimizedIr.translate 20 f 1 OrdMap.empty OrdMap.empty = .ok ir ∧
      Run ir (.forEvents fun m n e => ∀ op bop, n.op = some op →
        ScalarBinaryOp.fromOpcode op.name = some bop → ∀ rest a b, m.stack = rest ++ [a, b] →
          e.results 0 = Scalars.arith bop (modeAt OrdMap.empty n.pc) a b) (fun _ => 0) () c () ∧
      c.rest = n :: rest ∧ ir.graph.frameStates n.id = some state ∧
      ¬state.Exact (OptimizedIr.frameShape f) n.pc c.machine c.env := by
  constructor
  · obtain ⟨b, hb, hfacts⟩ := Option.any_eq_true _ _ |>.mp sharedSum_wrong
    rw [Bool.and_eq_true, List.all_eq_true] at hfacts
    obtain ⟨n, rest, state, hrest, hstate, hne⟩ := Config.wrongStack_inexact hfacts.1
    refine ⟨sharedSum, sharedSumIr, _, n, rest, state, Outcome.eq_ok_value sharedSum_verified,
      Outcome.eq_ok_value sharedSum_translated, (Run.start hb).exec ?_, hrest, hstate, hne _ _⟩
    intro n hn e _ m hpoll
    have hno := hfacts.2 n (List.mem_of_mem_take hn)
    rw [hpoll] at hno
    cases hno
  · obtain ⟨b, hb, hfacts⟩ := Option.any_eq_true _ _ |>.mp sumLoop_poll_wrong
    rw [Bool.and_eq_true, List.all_eq_true] at hfacts
    obtain ⟨n, rest, state, hrest, hstate, hne⟩ := Config.wrongStack_inexact hfacts.1
    refine ⟨sumLoop, sumLoopIr, _, n, rest, state, Outcome.eq_ok_value sumLoop_verified,
      Outcome.eq_ok_value sumLoop_translated, (Run.start hb).exec ?_, hrest, hstate, hne _ _⟩
    intro n hn e _ m op bop hop hbop
    have hno := hfacts.2 n hn
    rw [hop, Option.bind_some, hbop] at hno
    cases hno

end QuickJit
