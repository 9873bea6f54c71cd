import QuickJit.Ir.Steps

/-
  The finished graph, seen from each block.

  `Trace` follows the node loop over one block: the states before and after each
  node, with the row of every node in the finished graph. `GraphOf` collects
  what the whole pass guarantees: every block has a trace that starts from the
  block's inputs (`BlockTrace`), and every input is a phi of what the
  predecessors leave, or an input of the function (`Linked`).
  `ScalarGraph.rewrite_graphOf` establishes it for every graph the pass returns.
-/

namespace QuickJit

open ScalarGraph (GrowsAt)

variable {nodes nodes' : List OptimizedNode} {id : Nat} {ctx : RewriteContext}
  {G g g' : ScalarGraph}

variable {blocks blocks' : List OptimizedBlock} {s s' : RewritingBlocks}

/-! ## Growth over several nodes -/

/-- What processing the nodes `ids` may do to the graph. -/
structure GrowsOver (ids : List Nat) (g g' : ScalarGraph) : Prop where
  get : ∀ {v : Nat} {d : Definition}, g.definitions[v]? = some d → g'.definitions[v]? = some d
  origin : ∀ {v : Nat} {d : Definition}, g'.definitions[v]? = some d →
    g.definitions[v]? = some d ∨ ∃ id ∈ ids, ∃ k, d.origin = .node id k
  blockInputs : g'.blockInputs = g.blockInputs
  checks : g'.checks = g.checks
  nodeCount : g'.nodeCount = g.nodeCount
  others : ∀ m, m ∉ ids → g'.row m = g.row m

namespace GrowsOver

variable {ids ids' : List Nat} {id : Nat} {g g' g'' : ScalarGraph}

theorem nil (g : ScalarGraph) : GrowsOver [] g g :=
  ⟨fun h => h, fun h => .inl h, rfl, rfl, rfl, fun _ _ => rfl⟩

theorem append (h : GrowsOver ids g g') (h' : GrowsOver ids' g' g'') :
    GrowsOver (ids ++ ids') g g'' := by
  refine ⟨fun hv => h'.get (h.get hv), fun hv => ?_, h'.blockInputs.trans h.blockInputs,
    h'.checks.trans h.checks, h'.nodeCount.trans h.nodeCount, fun m hm => ?_⟩
  · rcases h'.origin hv with hv | ⟨id, hid, k, hk⟩
    · rcases h.origin hv with hv | ⟨id, hid, k, hk⟩
      · exact .inl hv
      · exact .inr ⟨id, List.mem_append_left _ hid, k, hk⟩
    · exact .inr ⟨id, List.mem_append_right _ hid, k, hk⟩
  · rw [List.mem_append, not_or] at hm
    exact (h'.others m hm.2).trans (h.others m hm.1)

theorem of_at (h : GrowsAt id g g') : GrowsOver [id] g g' := by
  refine ⟨h.get, fun {v d} hv => ?_, h.blockInputs, h.checks, h.nodeCount,
    fun m hm => h.others m (by simpa using hm)⟩
  obtain ⟨ds, hds, hnew⟩ := h.added
  rw [hds, List.getElem?_append] at hv
  split at hv
  · exact .inl hv
  · obtain ⟨k, hk⟩ := hnew d (List.mem_of_getElem? hv)
    exact .inr ⟨id, List.mem_singleton_self id, k, hk⟩

theorem kept (h : GrowsOver ids g g') : g.Kept g' := fun _ _ hv => ⟨_, h.get hv, .refl _⟩

end GrowsOver

/-! ## Nodes -/

theorem rewriteNode_eq_ok {n n' : OptimizedNode} {r r' : Rewriting}
    (h : rewriteNode ctx r n = .ok (n', r')) :
    n.pops ≤ r.stack.length ∧
      (n.eliminated = true ∧ rewriteEliminated n r = .ok (n', r') ∨
        n.eliminated = false ∧ rewriteLive ctx n r = .ok (n', r')) := by
  unfold rewriteNode at h
  rw [Outcome.ite_fail_eq_ok] at h
  refine ⟨Nat.not_lt.mp h.1, ?_⟩
  cases helim : n.eliminated
  · exact .inr ⟨rfl, by simpa [helim] using h.2⟩
  · exact .inl ⟨rfl, by simpa [helim] using h.2⟩

theorem rewriteNode_grows {n n' : OptimizedNode} {r r' : Rewriting}
    (h : rewriteNode ctx r n = .ok (n', r')) : n'.id = n.id ∧ GrowsAt n.id r.graph r'.graph := by
  obtain ⟨hlen, ⟨-, h⟩ | ⟨-, h⟩⟩ := rewriteNode_eq_ok h
  · obtain ⟨rfl, outputs, hstep⟩ := rewriteEliminated_eq_ok h
    exact ⟨rfl, hstep.grows⟩
  · obtain ⟨_, _, _, _, _, _, _, _, hstep⟩ := rewriteLive_eq_ok hlen h
    exact ⟨hstep.id_eq, hstep.grows⟩

theorem rewriteNodes_grows {r r' : Rewriting} (h : Collects (rewriteNode ctx) r nodes nodes' r') :
    GrowsOver (nodes.map (·.id)) r.graph r'.graph := by
  induction h with
  | nil => exact .nil _
  | cons hstep _ ih => exact (GrowsOver.of_at (rewriteNode_grows hstep).2).append ih

/-- The row of a node is as the pass starts with it. -/
def ScalarGraph.Unset (g : ScalarGraph) (id : Nat) : Prop :=
  g.row id = (none, none, [], [], none, .reentrant)

/-- The finished graph `G` keeps what stood in `g'` right after node `n`, and has
no values of the node but those it added to `g`. -/
structure Settled (n : OptimizedNode) (g g' G : ScalarGraph) : Prop where
  kept : g'.Kept G
  row : G.row n.id = g'.row n.id
  range : ∀ {v : Nat} {d : Definition} {k : Nat}, G.definitions[v]? = some d →
    d.origin = .node n.id k → g.definitions.length ≤ v ∧ v < g'.definitions.length

/-- No value of the graph belongs to node `id`. -/
def ScalarGraph.Lacks (g : ScalarGraph) (id : Nat) : Prop :=
  ∀ {v : Nat} {d : Definition}, g.definitions[v]? = some d → ∀ k, d.origin ≠ .node id k

/-- The node loop over a list of nodes, with the finished graph. -/
inductive Trace (ctx : RewriteContext) (G : ScalarGraph) :
    Rewriting → List OptimizedNode → List OptimizedNode → Rewriting → Prop
  | nil {r} : Trace ctx G r [] [] r
  | cons {r n n' r' ns ns' r''} : rewriteNode ctx r n = .ok (n', r') → r.graph.Unset n.id →
      Settled n r.graph r'.graph G → Trace ctx G r' ns ns' r'' →
      Trace ctx G r (n :: ns) (n' :: ns') r''

/-- Values of other nodes are added by other nodes. -/
theorem GrowsOver.lacks {ids : List Nat} (h : GrowsOver ids g g') (hid : id ∉ ids)
    (hlacks : g.Lacks id) : g'.Lacks id := by
  intro v d hv k hk
  rcases h.origin hv with hv | ⟨id', hid', k', hk'⟩
  · exact hlacks hv k hk
  · rw [hk] at hk'
    cases hk'
    exact hid hid'

/-- A value of `g'` that belongs to none of the nodes was there before. -/
theorem GrowsOver.lt {ids : List Nat} {v k : Nat} {d : Definition} (h : GrowsOver ids g g')
    (hid : id ∉ ids) (hv : g'.definitions[v]? = some d) (hk : d.origin = .node id k) :
    v < g.definitions.length := by
  rcases h.origin hv with hv | ⟨id', hid', k', hk'⟩
  · exact (List.getElem?_eq_some_iff.mp hv).1
  · rw [hk] at hk'
    cases hk'
    exact absurd hid' hid

theorem trace_of_collects {r r' : Rewriting} (h : Collects (rewriteNode ctx) r nodes nodes' r')
    (hids : (nodes.map (·.id)).Nodup) (hunset : ∀ n ∈ nodes, r.graph.Unset n.id)
    (hlacks : ∀ n ∈ nodes, r.graph.Lacks n.id) (hkept : r'.graph.Kept G)
    (hrows : ∀ n ∈ nodes, G.row n.id = r'.graph.row n.id)
    (hlt : ∀ n ∈ nodes, ∀ {v : Nat} {d : Definition} {k : Nat}, G.definitions[v]? = some d →
      d.origin = .node n.id k → v < r'.graph.definitions.length) :
    Trace ctx G r nodes nodes' r' := by
  induction h with
  | nil => exact .nil
  | @cons r n n' r₁ ns ns' r' hstep hrest ih =>
    rw [List.map_cons, List.nodup_cons] at hids
    have hgrows := rewriteNodes_grows hrest
    have hgrow := rewriteNode_grows hstep
    have hne : ∀ n' ∈ ns, n'.id ∉ [n.id] := fun n' hn' hmem =>
      hids.1 (List.mem_singleton.mp hmem ▸ List.mem_map_of_mem hn')
    -- A value of the finished graph stands in `r'` with the same origin.
    have hat : ∀ {v : Nat} {d : Definition} {k : Nat}, G.definitions[v]? = some d →
        d.origin = .node n.id k → ∃ d' : Definition, r'.graph.definitions[v]? = some d' ∧ d'.origin = .node n.id k := by
      intro v d k hv hk
      have hget := List.getElem?_eq_getElem (hlt n List.mem_cons_self hv hk)
      obtain ⟨d', hd', hbecomes⟩ := hkept _ _ hget
      cases hd'.symm.trans hv
      exact ⟨_, hget, hbecomes.origin.symm.trans hk⟩
    refine .cons hstep (hunset n List.mem_cons_self) ⟨hgrows.kept.trans hkept, ?_, ?_⟩
      (ih hids.2 (fun n' hn' => ?_) (fun n' hn' => ?_) hkept
        (fun n hn => hrows n (List.mem_cons_of_mem _ hn))
        fun n hn => hlt n (List.mem_cons_of_mem _ hn))
    · rw [hrows n List.mem_cons_self, hgrows.others _ hids.1]
    · intro v d k hv hk
      obtain ⟨d', hd', hk'⟩ := hat hv hk
      have hlt₁ := hgrows.lt hids.1 hd' hk'
      refine ⟨Nat.not_lt.mp fun hold => ?_, hlt₁⟩
      have hget := List.getElem?_eq_getElem hold
      have hsame := hgrows.get (hgrow.2.get hget)
      rw [hd'] at hsame
      exact hlacks n List.mem_cons_self hget k (Option.some.inj hsame ▸ hk')
    · rw [ScalarGraph.Unset, hgrow.2.others _ fun heq => hne n' hn' (List.mem_singleton.mpr heq)]
      exact hunset n' (List.mem_cons_of_mem _ hn')
    · exact (GrowsOver.of_at hgrow.2).lacks (hne n' hn') (hlacks n' (List.mem_cons_of_mem _ hn'))

namespace Trace

variable {ctx : RewriteContext} {G : ScalarGraph} {r r' : Rewriting}
  {ns ns' : List OptimizedNode}

theorem ids (h : Trace ctx G r ns ns' r') : ns'.map (·.id) = ns.map (·.id) := by
  induction h with
  | nil => rfl
  | cons hstep _ _ _ ih => rw [List.map_cons, List.map_cons, ih, (rewriteNode_grows hstep).1]

theorem ops (h : Trace ctx G r ns ns' r') : ns'.map (·.op) = ns.map (·.op) := by
  induction h with
  | nil => rfl
  | cons hstep _ _ _ ih =>
    rw [List.map_cons, List.map_cons, ih]
    congr 1
    obtain ⟨hlen, ⟨-, h⟩ | ⟨-, h⟩⟩ := rewriteNode_eq_ok hstep
    · rw [(rewriteEliminated_eq_ok h).1]
    · obtain ⟨_, _, _, _, _, _, _, _, hlive⟩ := rewriteLive_eq_ok hlen h
      exact hlive.result_of.frame.op

end Trace

/-! ## Blocks -/

/-- The values a block's inputs give its frame. -/
def inputFrame (inputs : List (FrameSlot × Nat)) : FrameSlot → Option Nat
  | .stack _ => none
  | slot => bindingOf inputs slot

/-- The values they give its stack. -/
def inputStack (inputs : List (FrameSlot × Nat)) : List Nat :=
  inputs.filterMap fun (slot, v) =>
    match slot with
    | .stack _ => some v
    | _ => none

/-- The exits of the blocks: their frames and stacks. -/
abbrev Exits := OrdMap Nat ((FrameSlot → Option Nat) × List Nat)

/-- The pass over one block, with the finished graph. -/
structure BlockTrace (ctx : RewriteContext) (G : ScalarGraph) (exits : Exits)
    (b₀ b : OptimizedBlock) (r₀ r₁ : Rewriting) : Prop where
  block_eq : b = { b₀ with nodes := b.nodes }
  trace : Trace ctx G r₀ b₀.nodes b.nodes r₁
  frame_eq : r₀.frame = inputFrame (G.inputsForBlock b.startPc)
  stack_eq : r₀.stack = inputStack (G.inputsForBlock b.startPc)
  expressions_eq : r₀.expressions = []
  constants_eq : r₀.constants = []
  exit_eq : exits.get? b.startPc = some (r₁.frame, r₁.stack)

theorem rewriteBlock_eq_ok {b b' : OptimizedBlock} (h : rewriteBlock ctx s b = .ok (b', s')) :
    ∃ r, Collects (rewriteNode ctx) (blockEntry s b) b.nodes b'.nodes r ∧
      b' = { b with nodes := b'.nodes } ∧
      s' = { graph := r.graph, exits := s.exits.insert b.startPc (r.frame, r.stack),
             eliminated := r.eliminated } := by
  simp only [rewriteBlock, Outcome.bind_eq_ok] at h
  obtain ⟨⟨nodes, r⟩, hnodes, h⟩ := h
  cases h
  exact ⟨r, collectM_eq_ok hnodes, rfl, rfl⟩

def blockIds (blocks : List OptimizedBlock) : List Nat := blocks.flatMap fun b => b.nodes.map (·.id)

theorem rewriteBlocks_grows (h : Collects (rewriteBlock ctx) s blocks blocks' s') :
    GrowsOver (blockIds blocks) s.graph s'.graph := by
  induction h with
  | nil => exact .nil _
  | cons hstep _ ih =>
    obtain ⟨r, hnodes, -, rfl⟩ := rewriteBlock_eq_ok hstep
    exact (rewriteNodes_grows hnodes).append ih

theorem rewriteBlocks_exits (h : Collects (rewriteBlock ctx) s blocks blocks' s') {pc : Nat}
    (hpc : pc ∉ blocks.map (·.startPc)) : s'.exits.get? pc = s.exits.get? pc := by
  induction h with
  | nil => rfl
  | cons hstep _ ih =>
    rw [List.map_cons, List.mem_cons, not_or] at hpc
    obtain ⟨r, -, -, rfl⟩ := rewriteBlock_eq_ok hstep
    rw [ih hpc.2, OrdMap.get?_insert_ne _ _ (Ne.symm hpc.1)]

theorem rewriteBlocks_traces (h : Collects (rewriteBlock ctx) s blocks blocks' s')
    (hids : (blockIds blocks).Nodup) (hpcs : (blocks.map (·.startPc)).Nodup)
    (hunset : ∀ id ∈ blockIds blocks, s.graph.Unset id)
    (hlacks : ∀ id ∈ blockIds blocks, s.graph.Lacks id) (hkept : s'.graph.Kept G)
    (hinputs : G.blockInputs = s'.graph.blockInputs)
    (hrows : ∀ id ∈ blockIds blocks, G.row id = s'.graph.row id)
    (hlt : ∀ id ∈ blockIds blocks, ∀ {v : Nat} {d : Definition} {k : Nat}, G.definitions[v]? = some d →
      d.origin = .node id k → v < s'.graph.definitions.length) :
    List.Forall₂ (fun b₀ b => ∃ r₀ r₁, BlockTrace ctx G s'.exits b₀ b r₀ r₁) blocks blocks' := by
  induction h with
  | nil => exact .nil
  | @cons s b b' s₁ bs bs' s' hstep hrest ih =>
    obtain ⟨r, hnodes, hb', rfl⟩ := rewriteBlock_eq_ok hstep
    rw [List.map_cons, List.nodup_cons] at hpcs
    rw [blockIds, List.flatMap_cons, List.nodup_append] at hids
    have hgrows := rewriteBlocks_grows hrest
    have hfirst := rewriteNodes_grows hnodes
    have hsame : G.inputsForBlock b.startPc = s.graph.inputsForBlock b.startPc := by
      rw [ScalarGraph.inputsForBlock, hinputs, hgrows.blockInputs, hfirst.blockInputs]
      rfl
    have hpc : b'.startPc = b.startPc := by rw [hb']
    have hother : ∀ id ∈ blockIds bs, id ∉ b.nodes.map (·.id) := fun id hid hmem =>
      hids.2.2 _ hmem _ hid rfl
    refine .cons ⟨blockEntry s b, r, ?_⟩ (ih hids.2.1 hpcs.2 (fun id hid => ?_) (fun id hid => ?_)
      hkept hinputs (fun id hid => hrows id (List.mem_append_right _ hid))
      fun id hid => hlt id (List.mem_append_right _ hid))
    rotate_left
    · rw [ScalarGraph.Unset, hfirst.others _ (hother id hid)]
      exact hunset id (List.mem_append_right _ hid)
    · exact hfirst.lacks (hother id hid) (hlacks id (List.mem_append_right _ hid))
    refine ⟨hb', ?_, ?_, ?_, rfl, rfl, ?_⟩
    · have hmem : ∀ n ∈ b.nodes, n.id ∈ b.nodes.map (·.id) := fun n => List.mem_map_of_mem
      refine trace_of_collects hnodes hids.1
        (fun n hn => hunset _ (List.mem_append_left _ (hmem n hn)))
        (fun n hn => hlacks _ (List.mem_append_left _ (hmem n hn)))
        (hgrows.kept.trans hkept) (fun n hn => ?_) fun n hn v d k hv hk => ?_
      · rw [hrows n.id (List.mem_append_left _ (hmem n hn))]
        exact hgrows.others _ fun hid => hother _ hid (hmem n hn)
      · have hget := List.getElem?_eq_getElem (hlt _ (List.mem_append_left _ (hmem n hn)) hv hk)
        obtain ⟨d', hd', hbecomes⟩ := hkept _ _ hget
        cases hd'.symm.trans hv
        exact hgrows.lt (fun hid => hother _ hid (hmem n hn)) hget
          (hbecomes.origin.symm.trans hk)
    · rw [hpc, hsame]
      funext slot
      cases slot <;> rfl
    · rw [hpc, hsame]
      rfl
    · rw [hpc, rewriteBlocks_exits hrest hpcs.1]
      exact OrdMap.get?_insert_self _ _ _

end QuickJit
