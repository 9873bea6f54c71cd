import QuickJit.Ir.Dominance

/-
  The loop analysis is exact.

  Over the dominator table the latches, members and preheader of a header are
  those of its natural loop (`Describes`), so the analysis of a graph says what
  the paths of the graph say (`Exact`). It gives a result exactly for reducible
  graphs, if the work suffices. Read off the IR, a failure at any stage leaves
  the empty analysis.

  A preheader is the only predecessor outside the loop that can be reached.
  Blocks that cannot be reached may still have an edge to the header. Loops nest:
  two of them are apart, or one lies in the other.
-/

namespace QuickJit

variable {done : List Nat} {s : List NaturalLoop × Finset Nat} {h header : Nat}

open Budget (Total Gives Refuses)
open FlowGraph (Path Dominates Latch InLoop Reducible)

namespace BlockGraph

/-- The start pc of a block. -/
def pc (G : BlockGraph) (block : Nat) : Nat := G.pcs.getD block 0

/-- A block that can be reached and ends a round of a loop. -/
def IsHeader (G : BlockGraph) (h : Nat) : Prop := ∃ u, Latch G.Edge 0 h u

/-- The block before a loop. -/
structure Preheader (G : BlockGraph) (h p : Nat) : Prop where
  enters : G.Edge p h
  outside : ¬ InLoop G.Edge 0 h p
  only : ∀ u, FlowGraph.Reaches G.Edge 0 u → G.Edge u h → ¬ InLoop G.Edge 0 h u → u = p
  successors : G.next p = [h]
  dominates : Dominates G.Edge 0 p h

/-- A loop of the analysis is the natural loop of a header. -/
structure Describes (G : BlockGraph) (h : Nat) (l : NaturalLoop) : Prop where
  header : l.header = G.pc h
  members : ∀ pc, pc ∈ l.members ↔ ∃ b < G.size, InLoop G.Edge 0 h b ∧ G.pc b = pc
  preheader : ∀ pc, l.preheader = some pc → ∃ p, G.pc p = pc ∧ G.Preheader h p

/-- The analysis says what the paths of the graph say. -/
structure Exact (G : BlockGraph) (l : LoopAnalysis) : Prop where
  complete : l.complete = true
  dominates : ∀ a b, a < G.size → b < G.size →
    (l.dominates (G.pc a) (G.pc b) = true ↔ Dominates G.Edge 0 a b)
  loops : ∀ loop ∈ l.loops, ∃ h, G.IsHeader h ∧ G.Describes h loop
  headers : ∀ h, G.IsHeader h → ∃ loop ∈ l.loops, G.Describes h loop
  once : l.loops.Pairwise fun k k' => k.header < k'.header
  contains : ∀ node, l.contains node = true ↔
    ∃ block position, G.owners[node]? = some (some (block, position)) ∧
      ∃ h, G.IsHeader h ∧ InLoop G.Edge 0 h block

variable {G : BlockGraph} {g : LoopAnalysis.Blocks} (hg : G.Read g) {rows : Nat → Finset Nat}
  (hrows : ∀ a b, a ∈ rows b ↔ Dominates G.Edge 0 a b)

/-! ## One loop -/

include hg hrows

theorem Read.total_latchesOf (h : Nat) :
    Total (LoopAnalysis.latchesOf g rows h) fun latches =>
      ∀ u, u ∈ latches ↔ Latch G.Edge 0 h u := by
  refine (Total.foldlM (I := fun d latches => ∀ u, u ∈ latches ↔ u ∈ d ∧ h ∈ rows u)
    (g.predecessors h) ?_ (by simp)).mono ?_
  · intro d pred r latches _ hlatches
    refine .spend 1 (.pure fun u => ?_)
    split
    case isTrue hpred =>
      simp only [List.mem_append, List.mem_singleton, hlatches]
      grind
    case isFalse hpred =>
      simp only [List.mem_append, List.mem_singleton, hlatches]
      grind
  · intro latches hlatches u
    rw [hlatches, hg.mem_predecessors, hrows]
    exact ⟨fun h => ⟨h.1, h.2⟩, fun h => ⟨h.edge, h.dominated⟩⟩

omit hg hrows in
theorem inLoop_of_latch {u : Nat} (hlatch : Latch G.Edge 0 h u) : InLoop G.Edge 0 h u := by
  by_cases hu : u = h
  · exact .inl hu
  · exact .inr ⟨hlatch.dominated.reached, u, [u], hlatch, .single u, by simpa using Ne.symm hu⟩

omit hg hrows in
/-- A predecessor of a member other than the header. -/
theorem inLoop_pred {b u : Nat} (hb : InLoop G.Edge 0 h b) (hne : b ≠ h)
    (hu : FlowGraph.Reaches G.Edge 0 u)
    (hedge : G.Edge u b) : InLoop G.Edge 0 h u := by
  by_cases huh : u = h
  · exact .inl huh
  rcases hb with hb | ⟨-, latch, p, hlatch, hp, hfree⟩
  · exact absurd hb hne
  refine .inr ⟨hu, latch, u :: p, hlatch, .cons hedge hp, ?_⟩
  exact fun hmem => (List.mem_cons.mp hmem).elim (Ne.symm huh) hfree

theorem Read.total_membersOf (hh : FlowGraph.Reaches G.Edge 0 h) {latches : List Nat}
    (hlatches : ∀ u, u ∈ latches ↔ Latch G.Edge 0 h u) :
    Total (LoopAnalysis.membersOf g rows h latches) fun members =>
      ∀ b, b ∈ members ↔ InLoop G.Edge 0 h b := by
  have hlone : Budget.Flooding g.predecessors (· ∈ g.reachable) (InLoop G.Edge 0 h) {h}
      (fun _ => False) ({h}, []) := by
    refine ⟨fun b hb => .inl (Finset.mem_singleton.mp hb), fun _ => id,
      fun b hb => (by cases hb), ?_⟩
    exact fun b hb hkept => absurd hb hkept
  obtain ⟨hstart, hmarked⟩ := hlone.foldl_mark fun u hu => inLoop_of_latch ((hlatches u).mp hu)
  have hmem : ∀ {u b}, u ∈ g.predecessors b → u ∈ g.reachable →
      FlowGraph.Reaches G.Edge 0 u ∧ G.Edge u b := fun hu hr =>
    ⟨(hg.mem_reachable _).mp hr, (hg.mem_predecessors _ _).mp hu⟩
  refine .bind (Budget.total_flood (Finset.range G.size) (fun b hb => ?_)
    (fun b u hb hne hu => ?_) (fun b u hb hne hu hr => ?_) hstart) ?_
  · exact Finset.mem_range.mpr (lt_of_reaches (hb.dominated hh).reached)
  · by_cases hr : u ∈ g.reachable
    · -- a header dominates its loop, so the check does not fail
      have hloop : InLoop G.Edge 0 h u :=
        inLoop_pred hb (by simpa using hne) (hmem hu hr).1 (hmem hu hr).2
      rw [if_pos hr, if_pos ((hrows h u).mpr (hloop.dominated hh))]
      exact .pure (by simp [hr])
    · rw [if_neg hr]
      exact .pure (by simp [hr])
  · exact inLoop_pred hb (by simpa using hne) (hmem hu hr).1 (hmem hu hr).2
  · rintro ⟨members, stack⟩ ⟨hsub, hgood, hclosed⟩
    refine .pure fun b => ⟨hgood b, fun hb => ?_⟩
    rcases hb with rfl | ⟨hb, u, p, hlatch, hp, hfree⟩
    · exact hsub (hstart.kept_marked (Finset.mem_singleton_self b))
    -- back along the path from the latch
    have hpath : ∀ {a p u}, Path G.Edge a p u → Latch G.Edge 0 h u → FlowGraph.Reaches G.Edge 0 a →
        h ∉ p → a ∈ members := by
      intro a p u hp hlatch
      induction hp with
      | single u => exact fun _ _ => hsub (hmarked u ((hlatches u).mpr hlatch))
      | @cons a b u p hedge hpath ih =>
        intro ha hfree
        obtain ⟨hne, hfree⟩ := not_or.mp (mt List.mem_cons.mpr hfree)
        have hbh : b ≠ h := fun hbh => hfree (hbh ▸ hpath.first_mem)
        exact hclosed b (ih hlatch (ha.edge hedge) hfree) (by simpa using hbh) a
          ((hg.mem_predecessors a b).mpr hedge) ((hg.mem_reachable a).mpr ha)
    exact hpath hp hlatch hb hfree

theorem Read.total_preheaderOf {members : Finset Nat}
    (hmembers : ∀ b, b ∈ members ↔ InLoop G.Edge 0 h b) :
    Total (LoopAnalysis.preheaderOf g rows h members) fun preheader =>
      ∀ p, preheader = some p → G.Preheader h p := by
  let outside : Nat → Bool := fun u => decide (u ∈ g.reachable ∧ u ∉ members)
  refine .bind (Total.foldlM (I := fun d (s : Option Nat × Nat) =>
      s.1 = (d.filter outside).getLast? ∧ s.2 = (d.filter outside).length)
    (g.predecessors h) ?_ ⟨rfl, rfl⟩) ?_
  · rintro d pred r ⟨preheader, entries⟩ - ⟨hlast, hcount⟩
    refine .spend 1 (.pure ?_)
    dsimp only at hlast hcount
    by_cases hout : pred ∈ g.reachable ∧ pred ∉ members
    · have hkeep : outside pred = true := decide_eq_true hout
      simp [if_pos hout, hkeep, hcount]
    · have hdrop : outside pred = false := decide_eq_false hout
      simp [if_neg hout, hdrop, hlast, hcount]
  · rintro ⟨preheader, entries⟩ ⟨hlast, hcount⟩
    refine .pure fun p hp => ?_
    obtain ⟨hp, hkeep⟩ := Option.filter_eq_some_iff.mp hp
    obtain ⟨hone, hnext, hdom⟩ := of_decide_eq_true hkeep
    obtain ⟨q, hq⟩ := List.length_eq_one_iff.mp (hcount.symm.trans hone)
    obtain rfl : q = p := by
      rw [hq] at hlast
      exact Option.some.inj (hlast.symm.trans hp)
    have hmem : ∀ u, u ∈ g.predecessors h ∧ u ∈ g.reachable ∧ u ∉ members ↔ u = q := by
      intro u
      rw [← List.mem_singleton, ← hq, List.mem_filter, decide_eq_true_iff]
    obtain ⟨hpred, -, hout⟩ := (hmem q).mpr rfl
    refine ⟨(hg.mem_predecessors q h).mp hpred, fun hin => hout ((hmembers q).mpr hin),
      fun u hu hedge hnot => ?_, ?_, (hrows q h).mp hdom⟩
    · exact (hmem u).mp ⟨(hg.mem_predecessors u h).mpr hedge, (hg.mem_reachable u).mpr hu,
        fun hin => hnot ((hmembers u).mp hin)⟩
    · rw [← hg.successors_eq]
      exact hnext

/-! ## All loops -/

/-- What the loop over the headers keeps: the loops of the headers done, in
order, and their blocks. -/
structure Collected (G : BlockGraph) (done : List Nat) (s : List NaturalLoop × Finset Nat) :
    Prop where
  loops : ∀ loop ∈ s.1, ∃ h ∈ done, G.IsHeader h ∧ G.Describes h loop
  headers : ∀ h ∈ done, G.IsHeader h → ∃ loop ∈ s.1, G.Describes h loop
  once : s.1.Pairwise fun k k' => k.header < k'.header
  blocks : ∀ b, b ∈ s.2 ↔ ∃ h ∈ done, G.IsHeader h ∧ InLoop G.Edge 0 h b

omit hg hrows in
theorem pc_lt {a b : Nat} (hab : a < b) (hb : b < G.size) : G.pc a < G.pc b := by
  have ha : a < G.pcs.length := hab.trans hb
  have hb' : b < G.pcs.length := hb
  unfold pc
  rw [List.getD_eq_getElem _ _ ha, List.getD_eq_getElem _ _ hb']
  exact List.pairwise_iff_getElem.mp G.ascending.2 a b ha hb' hab

omit hg hrows in
theorem Collected.skip (h : Collected G done s) (hno : ¬ G.IsHeader header) :
    Collected G (done ++ [header]) s := by
  have hmem : ∀ k, G.IsHeader k → k ∈ done ++ [header] → k ∈ done := by
    intro k hk hin
    rcases List.mem_append.mp hin with hin | hin
    · exact hin
    · exact absurd (List.mem_singleton.mp hin ▸ hk) hno
  refine ⟨fun loop hloop => ?_, fun k hk hheader => h.headers k (hmem k hheader hk) hheader,
    h.once, fun b => ?_⟩
  · obtain ⟨k, hk, hrest⟩ := h.loops loop hloop
    exact ⟨k, List.mem_append_left _ hk, hrest⟩
  · rw [h.blocks]
    constructor
    · rintro ⟨k, hk, hrest⟩
      exact ⟨k, List.mem_append_left _ hk, hrest⟩
    · rintro ⟨k, hk, hrest⟩
      exact ⟨k, hmem k hrest.1 hk, hrest⟩

omit hg hrows in
theorem Collected.add (h : Collected G done s) (hlast : ∀ k ∈ done, k < header)
    (hyes : G.IsHeader header) {l : NaturalLoop} (hl : G.Describes header l) {members : Finset Nat}
    (hmembers : ∀ b, b ∈ members ↔ InLoop G.Edge 0 header b) :
    Collected G (done ++ [header]) (s.1 ++ [l], s.2 ∪ members) := by
  refine ⟨fun loop hloop => ?_, fun k hk hheader => ?_, ?_, fun b => ?_⟩
  · rcases List.mem_append.mp hloop with hloop | hloop
    · obtain ⟨k, hk, hrest⟩ := h.loops loop hloop
      exact ⟨k, List.mem_append_left _ hk, hrest⟩
    · obtain rfl := List.mem_singleton.mp hloop
      exact ⟨header, List.mem_append_right _ (List.mem_singleton_self _), hyes, hl⟩
  · rcases List.mem_append.mp hk with hk | hk
    · obtain ⟨loop, hloop, hrest⟩ := h.headers k hk hheader
      exact ⟨loop, List.mem_append_left _ hloop, hrest⟩
    · obtain rfl := List.mem_singleton.mp hk
      exact ⟨l, List.mem_append_right _ (List.mem_singleton_self l), hl⟩
  · refine List.pairwise_append.mpr ⟨h.once, List.pairwise_singleton _ _, fun k hk k' hk' => ?_⟩
    obtain rfl := List.mem_singleton.mp hk'
    obtain ⟨x, hx, -, hdescribes⟩ := h.loops k hk
    obtain ⟨u, hlatch⟩ := hyes
    rw [hdescribes.header, hl.header]
    exact pc_lt (hlast x hx) hlatch.edge.lt_right
  · simp only [Finset.mem_union, h.blocks, hmembers, List.mem_append, List.mem_singleton]
    grind

theorem Read.total_collectLoop (h : Collected G done s) (hlast : ∀ k ∈ done, k < header) :
    Total (LoopAnalysis.collectLoop G.pcs g rows s header) (Collected G (done ++ [header])) := by
  refine .spend 1 ?_
  by_cases hheader : header ∈ g.reachable
  case neg =>
    rw [if_neg hheader]
    refine .pure (h.skip ?_)
    rintro ⟨u, hlatch⟩
    exact hheader ((hg.mem_reachable header).mpr hlatch.dominated.reaches)
  rw [if_pos hheader]
  have hreach := (hg.mem_reachable header).mp hheader
  refine .bind (hg.total_latchesOf hrows header) fun latches hlatches => ?_
  by_cases hnone : latches = []
  case pos =>
    rw [if_pos hnone]
    refine .pure (h.skip ?_)
    rintro ⟨u, hlatch⟩
    have hmem := (hlatches u).mpr hlatch
    rw [hnone] at hmem
    cases hmem
  rw [if_neg hnone]
  obtain ⟨latch, hlatch⟩ := List.exists_mem_of_ne_nil latches hnone
  refine .spend _ (.bind (hg.total_membersOf hrows hreach hlatches) fun members hmembers => ?_)
  refine .bind (hg.total_preheaderOf hrows hmembers) fun preheader hpreheader => .pure ?_
  refine h.add hlast ⟨latch, (hlatches latch).mp hlatch⟩ ⟨rfl, fun pc => ?_, fun pc hpc => ?_⟩
    hmembers
  · simp only [List.mem_map, List.mem_filter, List.mem_range, decide_eq_true_iff, hmembers,
      hg.n_eq, and_assoc]
    rfl
  · obtain ⟨p, hp, hpc⟩ := Option.map_eq_some_iff.mp hpc
    exact ⟨p, hpc, hpreheader p hp⟩

theorem Read.total_collectLoops :
    Total ((List.range G.size).foldlM (LoopAnalysis.collectLoop G.pcs g rows) ([], ∅))
      (Collected G (List.range G.size)) := by
  refine Total.foldlM (I := Collected G) _ (fun d x r s hsplit hs => ?_)
    ⟨by simp, by simp, .nil, by simp⟩
  have hsorted := List.pairwise_lt_range (n := G.size)
  rw [hsplit] at hsorted
  exact hg.total_collectLoop hrows hs fun k hk =>
    (List.pairwise_append.mp hsorted).2.2 k hk x List.mem_cons_self

/-! ## The whole analysis -/

omit hg hrows

theorem idxOf_pc {a : Nat} (ha : a < G.size) : G.pcs.idxOf? (G.pc a) = some a := by
  have hpc : ∀ {j : Nat} (hj : j < G.pcs.length), G.pcs[j] = G.pc j := fun hj =>
    (List.getD_eq_getElem _ _ hj).symm
  have ha' : a < G.pcs.length := ha
  refine List.idxOf?_eq_some_iff.mpr ⟨ha', hpc ha', fun j hj => ?_⟩
  rw [hpc (hj.trans ha')]
  exact (pc_lt hj ha).ne

/-- The blocks of the owners are in the graph, so each node gets an answer. -/
theorem total_loopNodes (loopBlocks : Finset Nat) :
    Total (G.owners.mapM fun
        | some (block, _) =>
          if block < G.pcs.length then pure (decide (block ∈ loopBlocks)) else Budget.refuse
        | none => pure false)
      (List.Forall₂ (fun owner member => member = true ↔
        ∃ block position, owner = some (block, position) ∧ block ∈ loopBlocks) G.owners) := by
  refine Total.mapM fun owner howner => ?_
  cases owner with
  | none => exact .pure (by simp)
  | some owner =>
    obtain ⟨block, position⟩ := owner
    simp only [if_pos (G.owned block position howner)]
    exact .pure (by simp)

theorem Collected.exact {loops : List NaturalLoop} {loopBlocks : Finset Nat}
    {rows : Nat → Finset Nat} {loopNodes : List Bool}
    (h : Collected G (List.range G.size) (loops, loopBlocks))
    (hrows : ∀ a b, a ∈ rows b ↔ Dominates G.Edge 0 a b)
    (hnodes : List.Forall₂ (fun owner member => member = true ↔
      ∃ block position, owner = some (block, position) ∧ block ∈ loopBlocks) G.owners loopNodes) :
    G.Exact {
      complete := true, pcs := G.pcs, dominators := (List.range G.size).map rows,
      owners := G.owners, loopNodes, loops } := by
  have hrange : ∀ {k}, G.IsHeader k → k ∈ List.range G.size := by
    rintro k ⟨u, hlatch⟩
    exact List.mem_range.mpr hlatch.edge.lt_right
  refine ⟨rfl, fun a b ha hb => ?_, fun loop hloop => ?_,
    fun k hk => h.headers k (hrange hk) hk, h.once, fun node => ?_⟩
  · simp only [LoopAnalysis.dominates, idxOf_pc ha, idxOf_pc hb, decide_eq_true_iff]
    rw [List.getD_eq_getElem?_getD, List.getElem?_map, List.getElem?_range hb]
    exact hrows a b
  · obtain ⟨k, -, hk⟩ := h.loops loop hloop
    exact ⟨k, hk⟩
  · obtain ⟨hlength, hget⟩ := List.forall₂_iff_get.mp hnodes
    have hblocks : ∀ block, block ∈ loopBlocks ↔ ∃ k, G.IsHeader k ∧ InLoop G.Edge 0 k block := by
      intro block
      rw [h.blocks]
      exact exists_congr fun k => and_iff_right_of_imp fun hk => hrange hk.1
    simp only [LoopAnalysis.contains, ← hblocks]
    by_cases hnode : node < G.owners.length
    · have hnode' := hlength ▸ hnode
      have hmember := hget node hnode hnode'
      simp only [List.get_eq_getElem] at hmember
      rw [List.getD_eq_getElem _ _ hnode', hmember, List.getElem?_eq_getElem hnode]
      simp only [Option.some.injEq]
    · rw [List.getD_eq_default _ _ (by omega), List.getElem?_eq_none (by omega)]
      simp

theorem decides_analyzeGraph :
    Budget.Decides (LoopAnalysis.analyzeGraph G.pcs G.successors G.owners) (Reducible G.Edge 0)
      G.Exact := by
  refine .spend _ ?_
  rw [if_neg (not_not_intro ⟨G.ascending, G.sizes⟩)]
  refine .bind total_predecessorsOf fun predecessors hpredecessors => ?_
  refine .bind total_reachableFrom fun reachable hreachable => ?_
  have hg : G.Read ⟨G.size, G.next, predecessors, reachable⟩ :=
    ⟨rfl, rfl, hpredecessors, hreachable⟩
  refine .bind hg.total_dominatorRows fun rows hrows => ?_
  refine .bind total_indegrees fun indegree hindegree => ?_
  refine .bind (hg.total_orderEdges hrows hindegree) fun order horder => ?_
  refine ⟨fun hred => ?_, fun hred => ?_⟩
  · rw [if_neg (not_not_intro (horder.mpr hred))]
    refine .bind (hg.total_collectLoops hrows) ?_
    rintro ⟨loops, loopBlocks⟩ hcollected
    refine .spend _ (.bind (total_loopNodes loopBlocks) fun loopNodes hnodes => .pure ?_)
    exact hcollected.exact hrows hnodes
  · rw [if_pos (mt horder.mp hred)]
    exact Budget.refuses_refuse

/-! ## The graph of the IR -/

/-- The graph is that of the blocks of the IR. -/
structure Of (G : BlockGraph) (ir : OptimizedIr) : Prop where
  pcs : G.pcs = ir.blocks.map (·.startPc)
  edges : ∀ u b, ir.blocks[u]? = some b →
    List.Forall₂ (fun pc v => G.pcs[v]? = some pc) b.successors (G.next u)

/-- The blocks determine the edges. -/
theorem Of.edge_eq {G' : BlockGraph} {ir : OptimizedIr} (h : G.Of ir) (h' : G'.Of ir) :
    G.Edge = G'.Edge := by
  have hpcs : G.pcs = G'.pcs := h.pcs.trans h'.pcs.symm
  have hunique : Relator.RightUnique fun (pc v : Nat) => G.pcs[v]? = some pc := by
    intro pc v w hv hw
    have hnodup : G.pcs.Nodup := G.ascending.2.imp Nat.ne_of_lt
    exact (List.getElem?_inj (List.getElem?_eq_some_iff.mp hv).1 hnodup).mp (hv.trans hw.symm)
  have hnext : G.next = G'.next := by
    funext u
    cases hb : ir.blocks[u]? with
    | some b => exact hunique.forall₂ (h.edges u b hb) (hpcs ▸ h'.edges u b hb)
    | none =>
      have hlen : ir.blocks.length ≤ u := List.getElem?_eq_none_iff.mp hb
      have hout : ∀ {G : BlockGraph}, G.Of ir → G.next u = [] := by
        intro G hG
        refine List.getD_eq_default _ _ ?_
        rwa [G.sizes, hG.pcs, List.length_map]
      rw [hout h, hout h']
  unfold Edge
  rw [hnext]

/-- What the loop over the blocks has read. -/
structure BlocksRead (ir : OptimizedIr) (pcs : List Nat) (done : List (OptimizedBlock × Nat))
    (s : List (List Nat) × List (Option (Nat × Nat))) : Prop where
  length : s.1.length = done.length
  edges : ∀ u b, done[u]? = some (b, u) →
    List.Forall₂ (fun pc v => pcs[v]? = some pc) b.successors (s.1.getD u [])
  targets : ∀ edges ∈ s.1, ∀ target ∈ edges, target < pcs.length
  owned : ∀ block position, some (block, position) ∈ s.2 → block < ir.blocks.length

theorem targets_lt {pcs l edges : List Nat}
    (h : List.Forall₂ (fun pc v => pcs[v]? = some pc) l edges) : ∀ v ∈ edges, v < pcs.length := by
  induction h with
  | nil => exact fun _ hv => by cases hv
  | cons hv _ ih =>
    refine List.forall_mem_cons.mpr ⟨?_, ih⟩
    exact (List.getElem?_eq_some_iff.mp hv).1

theorem gives_readBlock {ir : OptimizedIr} {pcs : List Nat} {done : List (OptimizedBlock × Nat)}
    {s : List (List Nat) × List (Option (Nat × Nat))} {b : OptimizedBlock × Nat}
    (hs : BlocksRead ir pcs done s) (hb : b.2 < ir.blocks.length) :
    Gives (LoopAnalysis.readBlock ir pcs s b) (BlocksRead ir pcs (done ++ [b])) := by
  refine .spend _ (.bind (Gives.mapM (R := fun pc v => pcs[v]? = some pc) (fun pc => ?_) _) ?_)
  · cases hindex : pcs.idxOf? pc with
    | none => exact Budget.gives_refuse
    | some index =>
      obtain ⟨hlt, hpc, -⟩ := List.idxOf?_eq_some_iff.mp hindex
      exact .pure (List.getElem?_eq_some_iff.mpr ⟨hlt, hpc⟩)
  intro edges hedges
  refine .bind (Q := fun owners => ∀ block position, some (block, position) ∈ owners →
    block < ir.blocks.length) (Gives.foldlM (I := fun _ owners => ∀ block position,
      some (block, position) ∈ owners → block < ir.blocks.length) _ ?_ hs.owned) ?_
  · rintro d ⟨id, position⟩ r owners - howned
    refine .spend 1 ?_
    split
    · exact Budget.gives_refuse
    · split
      · exact Budget.gives_refuse
      · refine .pure fun block position hmem => ?_
        rcases List.mem_or_eq_of_mem_set hmem with hmem | heq
        · exact howned block position hmem
        · obtain ⟨rfl, -⟩ := Prod.mk.inj (Option.some.inj heq)
          exact hb
  · intro owners howned
    refine .pure ⟨by simp [hs.length], fun u c hc => ?_, fun edges' hmem target htarget => ?_, howned⟩
    · rcases Nat.lt_or_ge u done.length with hu | hu
      · rw [List.getElem?_append_left hu] at hc
        rw [List.getD_append _ _ _ _ (hs.length ▸ hu)]
        exact hs.edges u c hc
      · rw [List.getElem?_append_right hu, List.getElem?_singleton] at hc
        split at hc
        case isFalse => cases hc
        case isTrue hlast =>
          obtain rfl := Option.some.inj hc
          rw [List.getD_append_right _ _ _ _ (by rw [hs.length]; exact hu), hs.length, hlast]
          exact hedges
    · rcases List.mem_append.mp hmem with hmem | hmem
      · exact hs.targets edges' hmem target htarget
      · obtain rfl := List.mem_singleton.mp hmem
        exact targets_lt hedges target htarget

/-- The graph the analysis is called with is that of the IR. -/
theorem gives_tryAnalyze (ir : OptimizedIr) :
    Gives (LoopAnalysis.tryAnalyze ir) fun l =>
      ∃ G : BlockGraph, G.Of ir ∧ Reducible G.Edge 0 ∧ G.Exact l := by
  refine .spend _ ?_
  by_cases hpcs : LoopAnalysis.Ascending (ir.blocks.map (·.startPc))
  case neg =>
    rw [if_pos hpcs]
    exact Budget.gives_refuse
  rw [if_neg (not_not_intro hpcs)]
  refine .bind (Gives.foldlM (I := BlocksRead ir (ir.blocks.map (·.startPc))) _ ?_
    ⟨rfl, by simp, by simp, by simp⟩) ?_
  · intro d b r s hsplit hs
    have hmem : b ∈ ir.blocks.zipIdx := hsplit ▸ List.mem_append_right d List.mem_cons_self
    exact gives_readBlock hs (List.snd_lt_of_mem_zipIdx hmem)
  · rintro ⟨successors, owners⟩ hs
    refine .bind (Q := fun _ => True) (fun _ _ _ _ => trivial) fun _ _ => ?_
    have hlength : successors.length = (ir.blocks.map (·.startPc)).length := by
      rw [hs.length, List.length_zipIdx, List.length_map]
    refine (decides_analyzeGraph (G := ⟨_, successors, owners, hpcs, hlength, hs.targets,
      by simpa using hs.owned⟩)).gives.mono fun l hl => ⟨_, ⟨rfl, fun u b hb => ?_⟩, hl⟩
    refine hs.edges u b ?_
    rw [List.getElem?_zipIdx, hb, Option.map_some, Nat.zero_add]

/-- The analysis of a graph is exact, and gives a result exactly for reducible
graphs if the work suffices; otherwise the analysis of the IR is empty. -/
theorem analysis_exact (G : BlockGraph) :
    (∀ work l left, LoopAnalysis.analyzeGraph G.pcs G.successors G.owners work = some (l, left) →
      G.Exact l ∧ Reducible G.Edge 0) ∧
    (Reducible G.Edge 0 → ∃ enough, ∀ work, enough ≤ work → ∃ l left,
      LoopAnalysis.analyzeGraph G.pcs G.successors G.owners work = some (l, left)) ∧
    ∀ ir work, G.Of ir → LoopAnalysis.tryAnalyze ir work = none ∨ ¬ Reducible G.Edge 0 →
      LoopAnalysis.analyze ir work = {} := by
  refine ⟨fun work l left heq => (decides_analyzeGraph.gives work l left heq).symm, fun hred => ?_,
    fun ir work hof hfail => ?_⟩
  · obtain ⟨enough, henough⟩ := (decides_analyzeGraph.1 hred).enough
    refine ⟨enough, fun work hle => ?_⟩
    obtain ⟨l, left, heq, -⟩ := henough work hle
    exact ⟨l, left, heq⟩
  · unfold LoopAnalysis.analyze
    cases hresult : LoopAnalysis.tryAnalyze ir work with
    | none => rfl
    | some result =>
      obtain ⟨l, left⟩ := result
      obtain ⟨G', hof', hred, -⟩ := gives_tryAnalyze ir work l left hresult
      rcases hfail with hfail | hfail
      · rw [hresult] at hfail
        cases hfail
      · rw [hof.edge_eq hof'] at hfail
        exact absurd hred hfail

/-- Any two loops the analysis finds have no block in common, or one is part of
the other. -/
theorem loops_nested_or_disjoint (ir : OptimizedIr) (work : Nat) :
    (LoopAnalysis.analyze ir work).loops.Pairwise fun k l =>
      k.header ≠ l.header ∧
        (List.Disjoint k.members l.members ∨ k.members ⊆ l.members ∨ l.members ⊆ k.members) := by
  unfold LoopAnalysis.analyze
  split
  case h_2 => exact .nil
  case h_1 l left hl =>
    obtain ⟨G, -, -, hexact⟩ := gives_tryAnalyze ir work l left hl
    refine hexact.once.imp_of_mem fun {k k'} hk hk' hlt => ⟨hlt.ne, ?_⟩
    obtain ⟨h, ⟨_, hlatch⟩, hdesc⟩ := hexact.loops k hk
    obtain ⟨h', ⟨_, hlatch'⟩, hdesc'⟩ := hexact.loops k' hk'
    have hh := hlatch.dominated.reaches
    have hh' := hlatch'.dominated.reaches
    have hsub : ∀ {h h' : Nat} {k k' : NaturalLoop}, G.Describes h k → G.Describes h' k' →
        (∀ b, InLoop G.Edge 0 h b → InLoop G.Edge 0 h' b) → k.members ⊆ k'.members := by
      intro h h' k k' hk hk' hloop pc hpc
      obtain ⟨b, hb, hin, rfl⟩ := (hk.members pc).mp hpc
      exact (hk'.members _).mpr ⟨b, hb, hloop b hin, rfl⟩
    by_cases hcommon : List.Disjoint k.members k'.members
    · exact .inl hcommon
    · simp only [List.Disjoint, not_forall] at hcommon
      obtain ⟨pc, hpc, hpc', -⟩ := hcommon
      obtain ⟨b, hb, hin, rfl⟩ := (hdesc.members pc).mp hpc
      obtain ⟨b', hb', hin', heq⟩ := (hdesc'.members _).mp hpc'
      obtain rfl : b' = b := by
        have hindex := idxOf_pc hb'
        rw [heq, idxOf_pc hb] at hindex
        exact (Option.some.inj hindex).symm
      rcases InLoop.nested hh hh' hin hin' with hnested | hnested
      · exact .inr (.inr (hsub hdesc' hdesc hnested))
      · exact .inr (.inl (hsub hdesc hdesc' hnested))

/-! ## A predecessor that cannot be reached -/

/-- Block 1 is a loop that block 0 enters; block 2 has an edge to it, too, and is
never reached. -/
def deadEntry : BlockGraph where
  pcs := [0, 1, 2]
  successors := [[1], [1], [1]]
  owners := []
  ascending := by decide
  sizes := rfl
  targets := by decide
  owned := by simp

theorem deadEntry_unreached : ¬ FlowGraph.Reaches deadEntry.Edge 0 2 := by
  rintro ⟨p, hp⟩
  rcases hp.last_edge with ⟨h, -⟩ | ⟨u, q, -, hedge, -⟩
  · cases h
  · obtain ⟨edges, hget, hmem⟩ := hedge.mem
    have hall : ∀ edges ∈ deadEntry.successors, 2 ∉ edges := by decide
    exact hall edges (List.mem_of_getElem? hget) hmem

/-- The preheader of the loop is block 0, although block 2 is a predecessor of the
header outside the loop, too. -/
theorem dead_entry_outside : ∃ l left loop,
    LoopAnalysis.analyzeGraph deadEntry.pcs deadEntry.successors deadEntry.owners 1000 =
      some (l, left) ∧ loop ∈ l.loops ∧ loop.header = deadEntry.pc 1 ∧
      loop.preheader = some (deadEntry.pc 0) ∧ deadEntry.Edge 2 1 ∧
      ¬ InLoop deadEntry.Edge 0 1 2 := by
  refine ⟨_, _, _, rfl, List.mem_singleton_self _, rfl, rfl, List.mem_singleton_self 1, ?_⟩
  rintro (h | ⟨hreach, -⟩)
  · cases h
  · exact deadEntry_unreached hreach

end BlockGraph

end QuickJit
