import QuickJit.Bytecode.Paths
import QuickJit.Ir.GraphOf

/-
  What translation guarantees, block by block.

  `IrOf` is the one statement later proofs use of a translated function: its
  blocks have traces over aligned nodes with consecutive ids, their stacks have
  the depth their successors expect, their inputs are linked, and the entry
  guard has the frame of the function's start. `translate_irOf` establishes it.
-/

namespace QuickJit

open Outcome

variable {cb : BasicBlock} {snapshot : CompileSnapshot} {exits : Exits}
  {feedbackEpoch fuel fuel' : Nat} {table : OpcodeTable} {inlineCallees : OrdMap Nat InlineCallee}
  {ctx : RewriteContext} {limits : VerifyLimits}

variable {bs : List BasicBlock} {blocks blocks' obs : List OptimizedBlock} {lo : Nat}
  {b : OptimizedBlock} {R : OptimizedBlock → OptimizedBlock → Prop} {ir : OptimizedIr}
  {depths : OrdMap Nat Nat} {modes : OrdMap Nat ScalarNumericMode} {f : VerifiedFunction}

/-! ## Sharing expressions keeps ids and operations -/

theorem rewriteExpressions_ids (s : ExpressionState) (nodes : List OptimizedNode) :
    (rewriteExpressions modes s nodes).1.map (fun n => (n.id, n.op)) =
      nodes.map fun n => (n.id, n.op) := by
  fun_induction rewriteExpressions modes s nodes with
  | case1 => rfl
  | case2 s a b c d rest out cse dead hrest haction ih
  | case3 s a source b c rest out cse dead hrest haction ih
  | case5 s a rest out cse dead hrest haction ih =>
    simp only [haction, hrest] at ih ⊢
    simp [OptimizedNode.hide, OptimizedNode.reuseTriple, ih]
  | case4 s a key b c rest s' out cse dead hrest haction ih =>
    simp only [haction, s', hrest] at ih ⊢
    simp [ih]
  | case6 s a rest out cse dead hrest hdead hreuse hdefine hskip ih =>
    split
    case h_1 haction => exact (hdead _ _ _ _ haction rfl).elim
    case h_2 haction => exact (hreuse _ _ _ _ haction rfl).elim
    case h_3 haction => exact (hdefine _ _ _ _ haction rfl).elim
    case h_4 haction => exact (hskip haction).elim
    case h_5 =>
      simp only [hrest] at ih ⊢
      simp [ih]

/-- One block before and after the sharing of expressions. -/
structure SharedBlock (modes : OrdMap Nat ScalarNumericMode) (b b₀ : OptimizedBlock) : Prop where
  block_eq : b₀ = { b with nodes := b₀.nodes }
  ids : b₀.nodes.map (·.id) = b.nodes.map (·.id)
  ops : b₀.nodes.map (·.op) = b.nodes.map (·.op)
  aligned : (∀ n ∈ b.nodes, n.Fresh) → Aligned modes [] .clear b₀.nodes

theorem rewritePureExpressions_shared :
    ∀ (blocks : List OptimizedBlock),
      List.Forall₂ (SharedBlock modes) blocks (rewritePureExpressions modes blocks).1
  | [] => .nil
  | b :: rest => by
    refine .cons ⟨rfl, ?_, ?_, rewriteExpressions_aligned .initial b.nodes⟩
      (rewritePureExpressions_shared rest)
    · have h := congrArg (List.map (·.1)) (@rewriteExpressions_ids modes .initial b.nodes)
      simpa only [List.map_map, Function.comp_def] using h
    · have h := congrArg (List.map (·.2)) (@rewriteExpressions_ids modes .initial b.nodes)
      simpa only [List.map_map, Function.comp_def] using h

/-! ## Translated functions -/

/-- One block of a translated function. -/
structure BlockOf (ctx : RewriteContext) (ir : OptimizedIr) (exits : Exits) (b : OptimizedBlock)
    (lo : Nat) (b₀ : OptimizedBlock) (r₀ r₁ : Rewriting) : Prop where
  trace : BlockTrace ctx ir.graph exits b₀ b r₀ r₁
  aligned : Aligned ctx.modes [] .clear b₀.nodes
  ids : b₀.nodes.map (·.id) = List.range' lo b₀.nodes.length
  depth : ∃ d, (b.nodes.filterMap (·.op)).foldlM depthAfterOp b.stackDepth = .ok d ∧
    ∀ s ∈ b.successors, ∃ b', ir.block? s = some b' ∧ b'.stackDepth = d

/-- A translated function. -/
structure IrOf (ctx : RewriteContext) (ir : OptimizedIr) (exits : Exits) : Prop where
  slots : SlotsOk ctx.shape ctx.slots
  starts : (ir.blocks.map (·.startPc)).Nodup
  blocks : ∀ b ∈ ir.blocks, ∃ lo b₀ r₀ r₁, BlockOf ctx ir exits b lo b₀ r₀ r₁
  inputs : ∀ b ∈ ir.blocks, ∃ bindings, ir.graph.blockInputs.get? b.startPc = some bindings ∧
    bindings.map (·.1) = blockSlots ctx.slots b
  linked : ∀ {pc bindings}, ir.graph.blockInputs.get? pc = some bindings → ∀ {slot v},
    (slot, v) ∈ bindings → Linked ir.graph exits (predecessorsOf ir.blocks pc) pc slot v
  entry_state : ∃ state bindings, ir.graph.frameStates ir.entry.id = some state ∧
    Captures ctx ir.entry.pc (bindingOf bindings) [] state ∧
    ∀ {slot v}, (slot, v) ∈ bindings → EntryValue ir.graph slot v
  entry_guard : ir.entry.IsGuard
  entry_block : ∃ b, ir.block? 0 = some b ∧ b.stackDepth = 0
  ids : (ir.nodes.map (·.id)) = List.range ir.nodes.length
  origin : ∀ {v : Nat} {d : Definition}, ir.graph.definitions[v]? = some d →
    (∃ pc bindings slot, d.origin = .block pc ∧ ir.graph.blockInputs.get? pc = some bindings ∧
      (slot, v) ∈ bindings) ∨
    (∃ slot, d = ⟨.input 0 slot, .entry⟩) ∨
      ∃ id ∈ blockIds ir.blocks, ∃ k, d.origin = .node id k

theorem find_startPc : ∀ {blocks : List OptimizedBlock},
    (blocks.map (·.startPc)).Nodup → b ∈ blocks →
      blocks.find? (fun b' => b'.startPc = b.startPc) = some b
  | b' :: rest, hstarts, hb => by
    rw [List.map_cons, List.nodup_cons] at hstarts
    rcases List.mem_cons.mp hb with rfl | hb
    · simp
    · have hne : b'.startPc ≠ b.startPc := fun heq =>
        hstarts.1 (heq ▸ List.mem_map_of_mem (f := OptimizedBlock.startPc) hb)
      rw [List.find?_cons_of_neg (by simpa using hne)]
      exact find_startPc hstarts.2 hb

/-- Blocks are found by their start. -/
theorem OptimizedIr.block?_iff (h : (ir.blocks.map (·.startPc)).Nodup) {pc : Nat} :
    ir.block? pc = some b ↔ b ∈ ir.blocks ∧ b.startPc = pc := by
  constructor
  · intro hb
    exact ⟨List.mem_of_find?_eq_some hb, by simpa using List.find?_some hb⟩
  · rintro ⟨hb, rfl⟩
    exact find_startPc h hb

theorem predecessorsOf_forall₂
    (hR : ∀ {b b'}, R b b' → b'.startPc = b.startPc ∧ b'.successors = b.successors) (pc : Nat)
    (h : List.Forall₂ R blocks blocks') :
    predecessorsOf blocks' pc = predecessorsOf blocks pc := by
  induction h with
  | nil => rfl
  | cons hb _ ih =>
    unfold predecessorsOf at ih ⊢
    rw [List.flatMap_cons, List.flatMap_cons, ih, (hR hb).1, (hR hb).2]

section

variable (h : TranslatedFrom f depths lo bs obs)

include h

theorem TranslatedFrom.ids :
    blockIds obs = List.range' lo (blockIds obs).length := by
  induction h with
  | nil => rfl
  | @cons lo b ob bs obs hb _ ih =>
    have hlen : (blockIds (ob :: obs)).length = ob.nodes.length + (blockIds obs).length := by
      simp [blockIds]
    rw [hlen, ← List.range'_append_1, ← hb.ids, ← ih]
    rfl

theorem TranslatedFrom.startPcs :
    obs.map (·.startPc) = bs.map (·.startPc) := by
  induction h with
  | nil => rfl
  | cons hb _ ih => rw [List.map_cons, List.map_cons, ih, hb.startPc_eq]

/-- A translated block and the block it comes from. -/
theorem TranslatedFrom.forall₂ :
    List.Forall₂ (fun b ob => ∃ lo, TranslatedBlock f depths b lo ob) bs obs := by
  induction h with
  | nil => exact .nil
  | cons hb _ ih => exact .cons ⟨_, hb⟩ ih

end

/-- One block through all stages: from the control-flow graph, as translated,
with expressions shared, and finished. -/
def Stages (f : VerifiedFunction) (depths : OrdMap Nat Nat) (ctx : RewriteContext)
    (G : ScalarGraph) (exits : Exits) (cb : BasicBlock) (b : OptimizedBlock) : Prop :=
  ∃ lo tb b₀ r₀ r₁, TranslatedBlock f depths cb lo tb ∧ SharedBlock ctx.modes tb b₀ ∧
    BlockTrace ctx G exits b₀ b r₀ r₁

theorem Stages.same {G : ScalarGraph} (h : Stages f depths ctx G exits cb b) :
    b.startPc = cb.startPc ∧ b.successors = cb.successors ∧
      depths.get? cb.startPc = some b.stackDepth := by
  obtain ⟨lo, tb, b₀, r₀, r₁, htb, hshared, htrace⟩ := h
  rw [htrace.block_eq, hshared.block_eq]
  exact ⟨htb.startPc_eq, htb.successors_eq, htb.depth_eq⟩

theorem filterMap_op (nodes : List OptimizedNode) :
    nodes.filterMap (·.op) = (nodes.map (·.op)).filterMap id := by
  rw [List.filterMap_map]
  rfl

theorem TranslatedBlock.blockOf (hf : ∀ i ∈ f.instructions, i.Standard)
    (hcfg : f.cfg.Ok f.instructions) (hclosed : DepthsClosed f depths)
    (hstarts : (ir.blocks.map (·.startPc)).Nodup)
    (hstages : List.Forall₂ (Stages f depths ctx ir.graph exits) f.cfg.blocks ir.blocks)
    (hcb : cb ∈ f.cfg.blocks) (h : Stages f depths ctx ir.graph exits cb b) :
    ∃ lo b₀ r₀ r₁, BlockOf ctx ir exits b lo b₀ r₀ r₁ := by
  obtain ⟨lo, tb, b₀, r₀, r₁, htb, hshared, htrace⟩ := h
  have hops : b.nodes.filterMap (·.op) = tb.nodes.filterMap (·.op) := by
    rw [filterMap_op, filterMap_op, htrace.trace.ops, hshared.ops]
  obtain ⟨d, hd, hsucc⟩ := htb.exit_depth hf hcfg hclosed hcb
  refine ⟨lo, b₀, r₀, r₁, htrace, hshared.aligned htb.fresh, ?_, d, ?_, fun s hs => ?_⟩
  · have hlen : b₀.nodes.length = tb.nodes.length := by
      simpa using congrArg List.length hshared.ids
    rw [hshared.ids, htb.ids, hlen]
  · rw [hops]
    have hdepth : b.stackDepth = tb.stackDepth := by rw [htrace.block_eq, hshared.block_eq]
    rw [hdepth]
    exact hd
  · have hs' : s ∈ tb.successors := by
      rw [htrace.block_eq, hshared.block_eq] at hs
      exact hs
    obtain ⟨cb', _, hcb', -, -⟩ := hclosed.settled (hsucc s hs')
    obtain ⟨hmem, hpc⟩ := hcfg.block_iff.mp hcb'
    obtain ⟨b', hb', hstage⟩ := forall₂_mem_left hstages hmem
    obtain ⟨hstart, -, hdepth⟩ := hstage.same
    refine ⟨b', (OptimizedIr.block?_iff hstarts).mpr ⟨hb', hstart.trans hpc⟩, ?_⟩
    rw [hpc, hsucc s hs'] at hdepth
    exact (Option.some.inj hdepth).symm

theorem blockIds_forall₂ (hR : ∀ {b b'}, R b b' → b'.nodes.map (·.id) = b.nodes.map (·.id))
    (h : List.Forall₂ R blocks blocks') :
    blockIds blocks' = blockIds blocks := by
  induction h with
  | nil => rfl
  | cons hb _ ih =>
    unfold blockIds at ih ⊢
    rw [List.flatMap_cons, List.flatMap_cons, ih, hR hb]

theorem startPcs_forall₂ (hR : ∀ {b b'}, R b b' → b'.startPc = b.startPc)
    (h : List.Forall₂ R blocks blocks') : blocks'.map (·.startPc) = blocks.map (·.startPc) := by
  induction h with
  | nil => rfl
  | cons hb _ ih => rw [List.map_cons, List.map_cons, ih, hR hb]

/-- The guarantees of one attempt at a translation. -/
theorem translateWith_irOf (ht : table.Standard) (hv : verify table fuel snapshot limits = .ok f)
    (h : OptimizedIr.translateWith fuel' f feedbackEpoch modes inlineCallees = .ok ir) :
    ∃ slots exits,
      IrOf ⟨slots, OptimizedIr.frameShape f, modes, inlineCallees⟩ ir exits := by
  have hf := verify_standard ht hv
  obtain ⟨proof, hverified⟩ := verify_eq_ok hv
  have hcfg := hverified.cfg_ok
  unfold OptimizedIr.translateWith at h
  rw [ite_fail_eq_ok] at h
  simp only [bind_eq_ok] at h
  obtain ⟨-, translated, htranslated, built, hbuilt, h⟩ := h
  cases h
  simp only [translateBlocks, bind_eq_ok] at htranslated
  obtain ⟨depths, hdepths, htranslated⟩ := htranslated
  rw [ite_fail_eq_ok] at htranslated
  simp only [bind_eq_ok] at htranslated
  obtain ⟨-, _, -, ⟨entry, t⟩, hentry, ⟨tblocks, state⟩, hblocks, htranslated⟩ := htranslated
  cases htranslated
  obtain ⟨hguard, hid, hnext, -⟩ := makeGuard_eq_ok hentry
  have hfrom := translateBlocks_from hf (collectM_eq_ok hblocks)
  have hclosed := optimizedBlockDepths_closed hdepths
  have hshared := @rewritePureExpressions_shared modes tblocks
  -- Ids and starts are those of the first stage.
  have hpcs : ((rewritePureExpressions modes tblocks).1.map (·.startPc)).Nodup := by
    rw [startPcs_forall₂ (fun hb => by rw [hb.block_eq]) hshared, hfrom.startPcs]
    exact hcfg.starts_sorted.imp fun h => ne_of_lt h
  have hids₀ : blockIds (rewritePureExpressions modes tblocks).1 = blockIds tblocks :=
    blockIds_forall₂ (fun hb => hb.ids) hshared
  have hnext : t.nextId = 1 := by rw [hnext, hid]
  have hids := hfrom.ids
  rw [hnext, ← hids₀] at hids
  have hnodup : (entry.id :: blockIds (rewritePureExpressions modes tblocks).1).Nodup := by
    rw [hid, hids]
    exact List.nodup_cons.mpr ⟨by simp [List.mem_range'_1], List.nodup_range'⟩
  obtain ⟨slots, exits, hslots, hgraph⟩ := ScalarGraph.rewrite_graphOf hnodup hpcs hbuilt
  have hstages : List.Forall₂
      (Stages f depths ⟨slots, OptimizedIr.frameShape f, modes, inlineCallees⟩ built.graph exits)
      f.cfg.blocks built.blocks := by
    refine (forall₂_trans (forall₂_trans hfrom.forall₂ hshared) hgraph.traces).imp ?_
    rintro cb b ⟨b₀, ⟨tb, ⟨lo, htb⟩, hb₀⟩, r₀, r₁, htrace⟩
    exact ⟨lo, tb, b₀, r₀, r₁, htb, hb₀, htrace⟩
  have hids' : blockIds built.blocks = blockIds (rewritePureExpressions modes tblocks).1 :=
    blockIds_forall₂ (fun ⟨_, _, hb⟩ => hb.trace.ids) hgraph.traces
  have hpcs' : built.blocks.map (·.startPc) =
      (rewritePureExpressions modes tblocks).1.map (·.startPc) :=
    startPcs_forall₂ (fun ⟨_, _, hb⟩ => by rw [hb.block_eq]) hgraph.traces
  have hpreds : ∀ pc, predecessorsOf built.blocks pc =
      predecessorsOf (rewritePureExpressions modes tblocks).1 pc := fun pc =>
    predecessorsOf_forall₂ (fun ⟨_, _, hb⟩ => by rw [hb.block_eq]; exact ⟨rfl, rfl⟩) pc hgraph.traces
  have hstarts : (built.blocks.map (·.startPc)).Nodup := hpcs' ▸ hpcs
  refine ⟨slots, exits, hslots, hstarts, ?_, ?_, ?_, ?_, hguard, ?_, ?_, ?_⟩
  · intro b hb
    obtain ⟨cb, hcb, hstage⟩ := forall₂_mem_right hstages hb
    exact TranslatedBlock.blockOf hf hcfg hclosed hstarts hstages hcb hstage
  · intro b hb
    obtain ⟨b₀, hb₀, r₀, r₁, htrace⟩ := forall₂_mem_right hgraph.traces hb
    rw [htrace.block_eq]
    exact hgraph.inputs b₀ hb₀
  · intro pc bindings hget slot v hmem
    rw [hpreds]
    exact hgraph.linked hget hmem
  · exact hgraph.entry_state
  · obtain ⟨cb, hcb⟩ := hcfg.entry
    obtain ⟨hmem, hpc⟩ := hcfg.block_iff.mp hcb
    obtain ⟨b, hb, hstage⟩ := forall₂_mem_left hstages hmem
    obtain ⟨hstart, -, hdepth⟩ := hstage.same
    refine ⟨b, (OptimizedIr.block?_iff hstarts).mpr ⟨hb, hstart.trans hpc⟩, ?_⟩
    rw [hpc, hclosed.entry] at hdepth
    exact (Option.some.inj hdepth).symm
  · have hmap : (built.blocks.flatMap (·.nodes)).map (·.id) = blockIds built.blocks := by
      rw [List.map_flatMap]
      rfl
    have hlen := congrArg List.length hmap
    rw [List.length_map] at hlen
    rw [OptimizedIr.nodes, List.map_cons, List.length_cons, hlen, hmap, hid, hids', hids,
      List.length_range', List.range_eq_range', List.range'_succ]
  · intro v d hd
    rw [hids']
    exact hgraph.origin hd

theorem translate_irOf (ht : table.Standard) (hv : verify table fuel snapshot limits = .ok f)
    (h : OptimizedIr.translate fuel' f feedbackEpoch modes inlineCallees = .ok ir) :
    ∃ ctx exits, ctx.modes = modes ∧ ctx.shape = OptimizedIr.frameShape f ∧ IrOf ctx ir exits := by
  unfold OptimizedIr.translate at h
  split at h
  · split at h
    · cases h
    · obtain ⟨slots, exits, hir⟩ := translateWith_irOf ht hv h
      exact ⟨_, exits, rfl, rfl, hir⟩
  · obtain ⟨slots, exits, hir⟩ := translateWith_irOf ht hv h
    exact ⟨_, exits, rfl, rfl, hir⟩

end QuickJit
