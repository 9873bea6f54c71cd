import QuickJit.Ir.Simulates

/-
  The graph simulates the bytecode over whole runs.

  `At` says where a run stands: in a block of the translated function, at a
  point of the pass over it, with graph and machine together (`Simulates`).
  It holds at the start of every run, and nodes and edges keep it (`run_at`).
  On an edge every input of the next block is a phi that selects what the
  predecessor leaves.
-/

namespace QuickJit

variable {exits : Exits} {bindings : List (FrameSlot × Nat)} {b : OptimizedBlock}

section

variable {V : Type} [Scalars V]
  {G : ScalarGraph} {pc lo : Nat} {m : Machine V} {env : Nat → Option V}

/-! ## Entering a block -/

def Machine.slot? (m : Machine V) : FrameSlot → Option V
  | .stack k => m.stack[k]?
  | slot => some (m.frame slot)

theorem bindingOf_mem {slot : FrameSlot} {v : Nat} (h : bindingOf bindings slot = some v) :
    (slot, v) ∈ bindings := by
  obtain ⟨⟨slot', v'⟩, hb, rfl⟩ := Option.map_eq_some_iff.mp h
  have hslot := List.find?_some hb
  rw [decide_eq_true_eq] at hslot
  subst hslot
  exact List.mem_of_find?_eq_some hb

/-- The stack inputs of a block are the last ones, in order. -/
theorem inputStack_eq {slots : List FrameSlot} (hslots : ∀ slot ∈ slots, ∀ i, slot ≠ .stack i) :
    ∀ {depths : List Nat} {bindings : List (FrameSlot × Nat)},
      bindings.map (·.1) = slots ++ depths.map .stack →
      List.Forall₂ (fun k v => (.stack k, v) ∈ bindings) depths (inputStack bindings) := by
  induction slots with
  | nil =>
    intro depths bindings h
    induction depths generalizing bindings with
    | nil =>
      rw [List.map_nil, List.append_nil, List.map_eq_nil_iff] at h
      subst h
      exact .nil
    | cons k depths ih =>
      match bindings, h with
      | (slot, v) :: bindings, h =>
        simp only [List.map_cons, List.nil_append, List.cons.injEq] at h
        obtain ⟨rfl, htail⟩ := h
        refine .cons List.mem_cons_self ?_
        exact (ih htail).imp fun _ _ hmem => List.mem_cons_of_mem _ hmem
  | cons slot₀ slots ih =>
    intro depths bindings h
    match bindings, h with
    | (slot, v) :: bindings, h =>
      simp only [List.map_cons, List.cons_append, List.cons.injEq] at h
      obtain ⟨rfl, htail⟩ := h
      have hrest := ih (fun s hs => hslots s (List.mem_cons_of_mem _ hs)) htail
      have hskip : inputStack ((slot, v) :: bindings) = inputStack bindings := by
        have hne := hslots slot List.mem_cons_self
        cases slot with
        | stack i => exact absurd rfl (hne i)
        | argument | loc => rfl
      rw [hskip]
      exact hrest.imp fun _ _ hmem => List.mem_cons_of_mem _ hmem

/-- A block whose inputs hold what the machine has starts with graph and machine
together. -/
theorem inputs_core {slots : List FrameSlot} (hslots : ∀ slot ∈ slots, ∀ i, slot ≠ .stack i)
    {r₀ : Rewriting} {depth : Nat} (hframe : r₀.frame = inputFrame bindings)
    (hstack : r₀.stack = inputStack bindings) (hexpressions : r₀.expressions = [])
    (hconstants : r₀.constants = [])
    (hbindings : bindings.map (·.1) = slots ++ (List.range depth).map .stack)
    (hdepth : m.stack.length = depth)
    (hholds : ∀ slot v, (slot, v) ∈ bindings → ∃ x, m.slot? slot = some x ∧
      Holds G pc lo lo env v x) : Core G pc lo lo r₀ m env := by
  refine ⟨fun {slot v} hv => ?_, ?_, ?_⟩
  · rw [hframe] at hv
    cases slot with
    | stack => cases hv
    | argument | loc =>
      obtain ⟨x, hx, hholds⟩ := hholds _ _ (bindingOf_mem hv)
      cases hx
      exact hholds
  · have hinputs := inputStack_eq hslots hbindings
    rw [hstack]
    refine forall₂_of_get ?_ fun {k v x} hv hx => ?_
    · rw [← hinputs.length_eq, List.length_range, hdepth]
    · have hlt : k < depth := hdepth ▸ (List.getElem?_eq_some_iff.mp hx).1
      obtain ⟨y, hy, hholds⟩ := hholds _ _ (forall₂_get hinputs (List.getElem?_range hlt) hv)
      cases hy.symm.trans hx
      exact hholds
  · rw [hconstants, hexpressions]
    exact ⟨fun hmem => (List.not_mem_nil hmem).elim, fun hmem => (List.not_mem_nil hmem).elim⟩

/-- What a block leaves in a slot holds what the machine has there. -/
theorem Core.exit_holds {slot : FrameSlot} {v p id : Nat} {r₁ : Rewriting}
    (hcore : Core G p lo id r₁ m env) (hexit : exits.get? p = some (r₁.frame, r₁.stack))
    (hv : exitOf exits slot p = some v) :
    ∃ x, m.slot? slot = some x ∧ Holds G p lo id env v x := by
  rw [exitOf, hexit, Option.bind_some] at hv
  cases slot with
  | stack k =>
    have hlt : k < m.stack.length := by
      rw [← hcore.stack.length_eq]
      exact (List.getElem?_eq_some_iff.mp hv).1
    have hx := List.getElem?_eq_getElem hlt
    exact ⟨_, hx, forall₂_get hcore.stack hv hx⟩
  | argument | loc => exact ⟨_, rfl, hcore.frame hv⟩

/-- A phi holds what the predecessor that is left has in its slot. -/
theorem Linked.edge_holds {predecessors : List Nat} {slot : FrameSlot} {v p : Nat} {lo₁ hi₁ : Nat}
    {r₁ : Rewriting} (h : Linked G exits predecessors pc slot v) (hp : p ∈ predecessors)
    (hexit : exits.get? p = some (r₁.frame, r₁.stack)) (hcore : Core G p lo₁ hi₁ r₁ m env) :
    ∃ x, m.slot? slot = some x ∧ Holds G pc lo lo (G.envEnter env (some p) pc m) v x := by
  rcases h with ⟨hnil, -⟩ | ⟨inputs, hv, hphi⟩
  · rw [hnil] at hp
    cases hp
  obtain ⟨j, hj, hjp⟩ := hphi.covers hp
  obtain ⟨i, hi⟩ : ∃ i, inputs.find? (fun i => decide (i.predecessor = some p)) = some i := by
    rw [← Option.isSome_iff_exists, List.find?_isSome]
    exact ⟨j, hj, decide_eq_true hjp⟩
  have hip := List.find?_some hi
  rw [decide_eq_true_eq] at hip
  obtain ⟨x, hx, hholds⟩ :=
    hcore.exit_holds hexit (hphi.edge (List.mem_of_find?_eq_some hi) hip).2
  have henv : G.envEnter env (some p) pc m v = env i.value := by
    simp only [ScalarGraph.envEnter, hv, if_true, ScalarValue.entering, hi, Option.bind_some]
  exact ⟨x, hx, ⟨_, hv, rfl⟩, henv.trans hholds.value⟩

omit [Scalars V] in
/-- At the start of a run, an input of the first block holds the initial slot. -/
theorem Linked.start_holds {predecessors : List Nat} {slot : FrameSlot} {v : Nat}
    {frame : FrameSlot → V} (h : Linked G exits predecessors 0 slot v) :
    Holds G 0 lo lo (G.envEnter (G.startEnv frame) none 0 ⟨frame, []⟩) v (frame slot) := by
  rcases h with ⟨-, -, hv⟩ | ⟨inputs, hv, hphi⟩
  · refine ⟨⟨_, hv, rfl⟩, ?_⟩
    simp only [ScalarGraph.envEnter, hv, if_true, ScalarValue.entering]
  obtain ⟨j, hj, hjp⟩ := hphi.entry_covers rfl
  obtain ⟨i, hi⟩ : ∃ i, inputs.find? (fun i => decide (i.predecessor = none)) = some i := by
    rw [← Option.isSome_iff_exists, List.find?_isSome]
    exact ⟨j, hj, decide_eq_true hjp⟩
  have hip := List.find?_some hi
  rw [decide_eq_true_eq] at hip
  have hvalue := (hphi.entry (List.mem_of_find?_eq_some hi) hip).2
  refine ⟨⟨_, hv, rfl⟩, ?_⟩
  simp only [ScalarGraph.envEnter, hv, if_true, ScalarValue.entering, hi, Option.bind_some,
    ScalarGraph.startEnv, hvalue]

end

/-! ## Runs -/

section

variable {V : Type} [Scalars V]
  {ctx : RewriteContext} {ir : OptimizedIr} {exits : Exits}

/-- The place of a run inside a block: `r` is the state of the pass before the
nodes `ns`, which it turns into the nodes still to execute. -/
structure At (ctx : RewriteContext)
    (ir : OptimizedIr) (exits : Exits) (c : Config V) (lo : Nat) (b₀ : OptimizedBlock)
    (r₀ r₁ : Rewriting) (id : Nat) (r : Rewriting) (ns : List OptimizedNode)
    (available : List (ExpressionKey × Nat)) (pending : Pending) (base hidden : List V) : Prop where
  mem : c.block ∈ ir.blocks
  block : BlockOf ctx ir exits c.block lo b₀ r₀ r₁
  trace : Trace ctx ir.graph r ns c.rest r₁
  aligned : Aligned ctx.modes available pending ns
  ids : ns.map (·.id) = List.range' id ns.length
  lo_le : lo ≤ id
  count : id + ns.length = lo + c.block.nodes.length
  simulates : Simulates ir.graph c.block.startPc lo id available pending r c.machine c.env
    base hidden
  depth : ∃ d, (c.rest.filterMap (·.op)).foldlM depthAfterOp c.machine.stack.length = .ok d ∧
    ∀ s ∈ c.block.successors, ∃ b', ir.block? s = some b' ∧ b'.stackDepth = d

/-- A run stands somewhere in the translated function. -/
def Located (ctx : RewriteContext)
    (ir : OptimizedIr) (exits : Exits) (c : Config V) : Prop :=
  ∃ lo b₀ r₀ r₁ id r ns available pending base hidden,
    At ctx ir exits c lo b₀ r₀ r₁ id r ns available pending base hidden

/-- A run that enters a block whose inputs hold what the machine has. -/
theorem located_enter (hir : IrOf ctx ir exits) (hb : b ∈ ir.blocks) {c : Config V}
    (hblock : c.block = b) (hrest : c.rest = b.nodes)
    (hdepth : c.machine.stack.length = b.stackDepth)
    (hholds : ∀ bindings, ir.graph.blockInputs.get? b.startPc = some bindings →
      ∀ slot v, (slot, v) ∈ bindings → ∀ lo, ∃ x, c.machine.slot? slot = some x ∧
        Holds ir.graph b.startPc lo lo c.env v x) : Located ctx ir exits c := by
  subst hblock
  obtain ⟨lo, b₀, r₀, r₁, hof⟩ := hir.blocks _ hb
  obtain ⟨bindings, hget, hbindings⟩ := hir.inputs _ hb
  have hinputs : ir.graph.inputsForBlock c.block.startPc = bindings := by
    rw [ScalarGraph.inputsForBlock, hget]
    rfl
  have hcore : Core ir.graph c.block.startPc lo lo r₀ c.machine c.env :=
    inputs_core hir.slots.frame (hinputs ▸ hof.trace.frame_eq) (hinputs ▸ hof.trace.stack_eq)
      hof.trace.expressions_eq hof.trace.constants_eq hbindings hdepth
      fun slot v hmem => hholds bindings hget slot v hmem lo
  have hlength : b₀.nodes.length = c.block.nodes.length := by
    simpa using (congrArg List.length hof.trace.trace.ids).symm
  refine ⟨lo, b₀, r₀, r₁, lo, r₀, b₀.nodes, [], .clear, _, _, hb, hof, ?_, hof.aligned, hof.ids,
    Nat.le_refl lo, by rw [hlength], hcore.simulates fun _ _ hmem => (List.not_mem_nil hmem).elim,
    ?_⟩
  · rw [hrest]
    exact hof.trace.trace
  · rw [hrest, hdepth]
    exact hof.depth

omit [Scalars V] in
/-- At the start the inputs of the first block hold the initial frame. -/
theorem start_holds (hir : IrOf ctx ir exits) (hb : ir.block? 0 = some b) (frame : FrameSlot → V)
    (hget : ir.graph.blockInputs.get? b.startPc = some bindings) {slot : FrameSlot} {v : Nat}
    (hv : (slot, v) ∈ bindings) (lo : Nat) :
    Holds ir.graph b.startPc lo lo (Config.start ir.graph b frame).env v (frame slot) := by
  have hpc := ((OptimizedIr.block?_iff hir.starts).mp hb).2
  rw [Config.start, hpc]
  exact (hir.linked (hpc ▸ hget) hv).start_holds

theorem located_start (hir : IrOf ctx ir exits) (hb : ir.block? 0 = some b) (frame : FrameSlot → V) :
    Located ctx ir exits (Config.start ir.graph b frame) := by
  obtain ⟨hmem, hpc⟩ := (OptimizedIr.block?_iff hir.starts).mp hb
  obtain ⟨b', hb', hdepth⟩ := hir.entry_block
  cases hb.symm.trans hb'
  refine located_enter hir hmem rfl rfl hdepth.symm fun bindings hget slot v hv lo => ?_
  refine ⟨frame slot, ?_, start_holds hir hb frame hget hv lo⟩
  cases slot with
  | argument | loc => rfl
  | stack k =>
    -- The first block starts with an empty stack.
    obtain ⟨bindings', hget', hbindings⟩ := hir.inputs _ hmem
    cases hget.symm.trans hget'
    have hin : FrameSlot.stack k ∈ bindings.map (·.1) := List.mem_map_of_mem hv
    rw [hbindings, blockSlots, hdepth, List.range_zero, List.map_nil, List.append_nil] at hin
    exact absurd rfl (hir.slots.frame _ hin k)

/-- The nodes of a block keep the run in the function. -/
theorem located_node {c : Config V} {n : OptimizedNode} {rest : List OptimizedNode} {e : Event V}
    (h : Located ctx ir exits c) (hrest : c.rest = n :: rest)
    (hreg : Regular ctx.modes c.machine n e) :
    Located ctx ir exits (c.after ir.graph n rest e) := by
  obtain ⟨lo, b₀, r₀, r₁, id, r, ns, available, pending, base, hidden, hat⟩ := h
  have htrace := hat.trace
  rw [hrest] at htrace
  cases htrace with
  | @cons _ n₀ _ r' ns₁ _ _ hrewrite hunset hsettled htrace =>
    have hids := hat.ids
    rw [List.map_cons, List.length_cons, List.range'_succ, List.cons.injEq] at hids
    obtain ⟨rfl, hids⟩ := hids
    have hid := (rewriteNode_grows hrewrite).1
    have hstep := hat.simulates.step hat.aligned hrewrite hat.lo_le hsettled.kept hreg
    obtain ⟨available', pending', base', hidden', haligned, hsim⟩ := hstep.next
    refine ⟨lo, b₀, r₀, r₁, n₀.id + 1, r', ns₁, available', pending', base', hidden', hat.mem,
      hat.block, htrace, haligned, hids, Nat.le_succ_of_le hat.lo_le, ?_, ?_, ?_⟩
    · have hcount := hat.count
      rw [List.length_cons] at hcount
      show n₀.id + 1 + ns₁.length = lo + c.block.nodes.length
      omega
    · rw [Config.after, hid]
      exact hsim
    · obtain ⟨d, hd, hsucc⟩ := hat.depth
      refine ⟨d, ?_, hsucc⟩
      rw [hrest] at hd
      show (rest.filterMap (·.op)).foldlM depthAfterOp (c.machine.after n e).stack.length = .ok d
      rw [hstep.depth, OptimizedNode.depthAfter]
      cases hop : n.op with
      | none =>
        rw [List.filterMap_cons_none hop] at hd
        exact hd
      | some op =>
        rw [List.filterMap_cons_some hop, List.foldlM_cons, Outcome.bind_eq_ok] at hd
        obtain ⟨d', hd', hrest'⟩ := hd
        rw [(depthAfterOp_eq_ok hd').2] at hrest'
        exact hrest'

/-- On an edge the inputs of the next block hold what the machine has. -/
theorem Located.edge_holds (hir : IrOf ctx ir exits) {c : Config V} {pc : Nat}
    (h : Located ctx ir exits c) (hrest : c.rest = []) (hpc : pc ∈ c.block.successors)
    (hb : ir.block? pc = some b) (hget : ir.graph.blockInputs.get? b.startPc = some bindings)
    {slot : FrameSlot} {v : Nat} (hv : (slot, v) ∈ bindings) (lo : Nat) :
    ∃ x, c.machine.slot? slot = some x ∧
      Holds ir.graph b.startPc lo lo (c.enter ir.graph b).env v x := by
  obtain ⟨lo', b₀, r₀, r₁, id, r, ns, available, pending, base, hidden, hat⟩ := h
  obtain ⟨hmem, hstart⟩ := (OptimizedIr.block?_iff hir.starts).mp hb
  have htrace := hat.trace
  rw [hrest] at htrace
  cases htrace with
  | nil =>
    have haligned := hat.aligned
    cases haligned
    refine (hir.linked hget hv).edge_holds ?_ hat.block.trace.exit_eq hat.simulates.clear_core
    rw [predecessorsOf, List.mem_flatMap]
    refine ⟨c.block, hat.mem, ?_⟩
    rw [List.mem_map]
    exact ⟨pc, List.mem_filter.mpr ⟨hpc, by rw [hstart]; simp⟩, rfl⟩

/-- The edges between blocks keep the run in the function. -/
theorem located_edge (hir : IrOf ctx ir exits) {c : Config V} {pc : Nat}
    (h : Located ctx ir exits c) (hrest : c.rest = []) (hpc : pc ∈ c.block.successors)
    (hb : ir.block? pc = some b) : Located ctx ir exits (c.enter ir.graph b) := by
  have hinputs := h
  obtain ⟨lo, b₀, r₀, r₁, id, r, ns, available, pending, base, hidden, hat⟩ := h
  obtain ⟨hmem, -⟩ := (OptimizedIr.block?_iff hir.starts).mp hb
  obtain ⟨d, hd, hsucc⟩ := hat.depth
  rw [hrest] at hd
  cases hd
  obtain ⟨b', hb', hdepth⟩ := hsucc pc hpc
  cases hb.symm.trans hb'
  exact located_enter hir hmem rfl rfl hdepth.symm fun bindings hget slot v hv lo' =>
    hinputs.edge_holds hir hrest hpc hb hget hv lo'

/-- Every point of a run is located, if the events are those the graph is built
for. -/
theorem run_located {W : Type} {rules : Rules V W} {frame : FrameSlot → V} {world : W}
    (hir : IrOf ctx ir exits)
    (hreg : ∀ {c w n e w'}, rules.node c w n e w' → Regular ctx.modes c.machine n e)
    {c : Config V} {w : W} (h : Run ir rules frame world c w) : Located ctx ir exits c := by
  induction h with
  | start hb => exact located_start hir hb frame
  | node _ hrest hstep ih => exact located_node ih hrest (hreg hstep)
  | edge _ hrest hpc hb _ ih => exact located_edge hir ih hrest hpc hb

end

end QuickJit
