import QuickJit.Lib.FlowGraph
import QuickJit.Ir.Loops

/-
  The stages of the loop analysis up to the order of the edges.

  A `BlockGraph` is a graph `analyze_graph` is called with. Over it each stage
  has a specification in terms of paths: the predecessors and the blocks that
  can be reached (`Read`), the dominator table, which is exactly dominance
  (`total_dominatorRows`), and the ordering, which takes every block that can be
  reached exactly if the graph is reducible (`total_orderEdges`).
-/

namespace QuickJit

open Function

variable {ordered : Finset Nat} {s : LoopAnalysis.EdgeOrder} {b u v : Nat}

open Budget (Total)
open FlowGraph (Path Dominates Forward Reducible)

/-- A finite block graph, with the owners of the nodes. -/
structure BlockGraph where
  pcs : List Nat
  successors : List (List Nat)
  owners : List (Option (Nat × Nat))
  ascending : LoopAnalysis.Ascending pcs
  sizes : successors.length = pcs.length
  targets : ∀ edges ∈ successors, ∀ target ∈ edges, target < pcs.length
  owned : ∀ block position, some (block, position) ∈ owners → block < pcs.length

namespace BlockGraph

variable (G : BlockGraph)

def size : Nat := G.pcs.length

def next (block : Nat) : List Nat := G.successors.getD block []

/-- The edges between block indices; the entry is block zero. -/
def Edge (u v : Nat) : Prop := v ∈ G.next u

variable {G}

theorem Edge.mem (h : G.Edge u v) :
    ∃ edges, G.successors[u]? = some edges ∧ v ∈ edges := by
  unfold Edge next at h
  rw [List.getD_eq_getElem?_getD] at h
  cases hget : G.successors[u]? with
  | none => simp [hget] at h
  | some edges => exact ⟨edges, rfl, by simpa [hget] using h⟩

theorem Edge.lt_left (h : G.Edge u v) : u < G.size := by
  obtain ⟨edges, hget, -⟩ := h.mem
  have hlt := (List.getElem?_eq_some_iff.mp hget).1
  rwa [G.sizes] at hlt

theorem Edge.lt_right (h : G.Edge u v) : v < G.size := by
  obtain ⟨edges, hget, hv⟩ := h.mem
  exact G.targets edges (List.mem_of_getElem? hget) v hv

theorem size_pos : 0 < G.size := by
  have hhead := G.ascending.1
  unfold size
  cases hpcs : G.pcs with
  | nil => simp [hpcs] at hhead
  | cons => exact Nat.succ_pos _

theorem lt_of_reaches (h : FlowGraph.Reaches G.Edge 0 b) : b < G.size := by
  obtain ⟨p, hp⟩ := h
  rcases hp.last_edge with ⟨rfl, -⟩ | ⟨u, q, -, hedge, -⟩
  · exact size_pos
  · exact hedge.lt_right

/-! ## Predecessors and reachable blocks -/

theorem total_predecessorsOf :
    Total (LoopAnalysis.predecessorsOf G.size G.next) fun preds =>
      ∀ u v, u ∈ preds v ↔ G.Edge u v := by
  -- the edges of the blocks done, and of the current block those done
  refine (Total.foldlM (I := fun d preds => ∀ u v, u ∈ preds v ↔ u ∈ d ∧ G.Edge u v)
    (List.range G.size) ?_ (by simp)).mono ?_
  · intro d block r preds _ hpreds
    refine (Total.foldlM (I := fun d' (preds' : Nat → List Nat) =>
      ∀ u v, u ∈ preds' v ↔ u ∈ preds v ∨ u = block ∧ v ∈ d') (G.next block) ?_ (by simp)).mono ?_
    · intro d' target r' preds' hsplit hpreds'
      have htarget : G.Edge block target := by
        unfold Edge
        rw [hsplit]
        exact List.mem_append_right d' List.mem_cons_self
      refine .spend 1 ?_
      rw [if_pos htarget.lt_right]
      refine .pure fun u v => ?_
      by_cases hv : v = target
      · subst hv
        simp only [update_self, List.mem_append, List.mem_singleton, hpreds', or_assoc]
        grind
      · simp only [update_of_ne hv, hpreds', List.mem_append, List.mem_singleton, hv,
          or_false]
    · intro preds' hpreds' u v
      rw [hpreds', hpreds, List.mem_append, List.mem_singleton, or_and_right]
      refine or_congr Iff.rfl (and_congr_right ?_)
      rintro rfl
      exact Iff.rfl
  · intro preds hpreds u v
    rw [hpreds, List.mem_range]
    exact and_iff_right_of_imp Edge.lt_left

theorem total_reachableFrom :
    Total (LoopAnalysis.reachableFrom G.next) fun reachable =>
      ∀ b, b ∈ reachable ↔ FlowGraph.Reaches G.Edge 0 b := by
  have hstart : Budget.Flooding G.next (fun _ => True) (FlowGraph.Reaches G.Edge 0) ∅
      (fun _ => False)
      ({0}, [0]) := by
    refine ⟨fun b hb => ?_, Finset.empty_subset _, fun b hb => ?_, fun b hb _ hst => ?_⟩
    · obtain rfl := Finset.mem_singleton.mp hb
      exact .refl 0
    · obtain rfl := List.mem_singleton.mp hb
      exact ⟨Finset.mem_singleton_self 0, Finset.notMem_empty 0⟩
    · obtain rfl := Finset.mem_singleton.mp hb
      exact absurd (List.mem_singleton_self 0) hst
  refine .bind (Budget.total_flood (Finset.range G.size)
    (fun b hb => Finset.mem_range.mpr (lt_of_reaches hb)) (fun _ _ _ _ _ => .pure (by simp))
    (fun _ _ hb _ hkey _ => hb.edge hkey) hstart) ?_
  rintro ⟨reachable, stack⟩ ⟨hsub, hgood, hclosed⟩
  refine .pure fun b => ⟨hgood b, ?_⟩
  rintro ⟨p, hp⟩
  -- the marked blocks are closed under edges, so a path from the first stays in them
  have hpath : ∀ {a p b}, Path G.Edge a p b → a ∈ reachable → b ∈ reachable := by
    intro a p b hp
    induction hp with
    | single a => exact id
    | cons hedge _ ih =>
      intro ha
      exact ih (hclosed _ ha (Finset.notMem_empty _) _ hedge trivial)
  exact hpath hp (hsub (Finset.mem_singleton_self 0))

/-- The graph as the later stages read it. -/
structure Read (G : BlockGraph) (g : LoopAnalysis.Blocks) : Prop where
  n_eq : g.n = G.size
  successors_eq : g.successors = G.next
  mem_predecessors : ∀ u v, u ∈ g.predecessors v ↔ G.Edge u v
  mem_reachable : ∀ b, b ∈ g.reachable ↔ FlowGraph.Reaches G.Edge 0 b

variable {g : LoopAnalysis.Blocks} (hg : G.Read g) {rows : Nat → Finset Nat}
include hg

theorem Read.zero_mem : 0 ∈ g.reachable := (hg.mem_reachable 0).mpr (.refl 0)

theorem Read.reachable_subset : g.reachable ⊆ Finset.range G.size := fun b hb =>
  Finset.mem_range.mpr (lt_of_reaches ((hg.mem_reachable b).mp hb))

/-! ## The dominator table -/

omit hg

/-- The row of a block by its predecessors. -/
def meet (g : LoopAnalysis.Blocks) (rows : Nat → Finset Nat) (block : Nat) : Finset Nat :=
  insert block
    (g.reachable.filter fun a => ∀ p ∈ g.predecessors block, p ∈ g.reachable → a ∈ rows p)

theorem meet_mono {rows' : Nat → Finset Nat} (h : ∀ b, rows' b ⊆ rows b) (block : Nat) :
    meet g rows' block ⊆ meet g rows block := by
  refine Finset.insert_subset_insert _ fun a ha => ?_
  obtain ⟨ha, hall⟩ := Finset.mem_filter.mp ha
  exact Finset.mem_filter.mpr ⟨ha, fun p hp hpr => h p (hall p hp hpr)⟩

theorem total_meetBlock (t : LoopAnalysis.DominatorTable) (block : Nat) :
    Total (LoopAnalysis.meetBlock g t block) fun t' => t' =
      if block ∈ g.reachable ∧ meet g t.rows block ≠ t.rows block then
        ⟨Function.update t.rows block (meet g t.rows block), true⟩ else t := by
  refine .spend 1 ?_
  by_cases hblock : block ∈ g.reachable
  case neg =>
    rw [if_neg hblock, if_neg fun h => hblock h.1]
    exact .pure rfl
  rw [if_pos hblock]
  refine .spend _ (.bind (Total.foldlM (I := fun d next => next =
    g.reachable.filter fun a => ∀ p ∈ d, p ∈ g.reachable → a ∈ t.rows p)
    (g.predecessors block) ?_ (by simp)) ?_)
  · rintro d pred r next - rfl
    refine .spend 1 ?_
    split
    case isTrue hpred =>
      refine .spend _ (.pure (Finset.ext fun a => ?_))
      simp only [Finset.mem_inter, Finset.mem_filter, List.mem_append, List.mem_singleton]
      grind
    case isFalse hpred =>
      refine .pure (Finset.ext fun a => ?_)
      simp only [Finset.mem_filter, List.mem_append, List.mem_singleton]
      grind
  · rintro next rfl
    refine .spend _ (.pure ?_)
    exact if_congr (and_iff_right hblock).symm rfl rfl

/-- What every round of the iteration keeps: the rows lie above dominance, and
another round can only shrink them. -/
structure Table (G : BlockGraph) (g : LoopAnalysis.Blocks) (rows : Nat → Finset Nat) : Prop where
  first : rows 0 = {0}
  outside : ∀ b, b ∉ g.reachable → rows b = ∅
  above : ∀ a b, Dominates G.Edge 0 a b → a ∈ rows b
  shrinking : ∀ b ∈ g.reachable, b ≠ 0 → meet g rows b ⊆ rows b

def cells (G : BlockGraph) (rows : Nat → Finset Nat) : Nat :=
  ∑ b ∈ Finset.range G.size, (rows b).card

include hg

theorem Read.meet_above (habove : ∀ a b, Dominates G.Edge 0 a b → a ∈ rows b) {a : Nat}
    (h : Dominates G.Edge 0 a b) : a ∈ meet g rows b := by
  by_cases hab : a = b
  · exact hab ▸ Finset.mem_insert_self _ _
  refine Finset.mem_insert_of_mem (Finset.mem_filter.mpr ⟨?_, fun p hp hpr => ?_⟩)
  · exact (hg.mem_reachable a).mpr h.reaches
  · exact habove a p (h.pred hab ((hg.mem_reachable p).mp hpr) ((hg.mem_predecessors p b).mp hp))

theorem Read.table_initial : Table G g (LoopAnalysis.initialRows g) := by
  refine ⟨rfl, fun b hb => ?_, fun a b h => ?_, fun b hb hne a ha => ?_⟩
  · have hne : b ≠ 0 := fun h => hb (h ▸ hg.zero_mem)
    rw [LoopAnalysis.initialRows, if_neg hne, if_neg hb]
  · unfold LoopAnalysis.initialRows
    split
    case isTrue hb =>
      subst hb
      exact Finset.mem_singleton.mpr (FlowGraph.dominates_entry.mp h)
    case isFalse =>
      rw [if_pos ((hg.mem_reachable b).mpr h.reached)]
      exact (hg.mem_reachable a).mpr h.reaches
  · rw [LoopAnalysis.initialRows, if_neg hne, if_pos hb]
    rcases Finset.mem_insert.mp ha with rfl | ha
    · exact hb
    · exact (Finset.mem_filter.mp ha).1

theorem Table.update (h : Table G g rows) (hb : b ∈ g.reachable) (hne : b ≠ 0) :
    Table G g (Function.update rows b (meet g rows b)) := by
  have hle : ∀ c, Function.update rows b (meet g rows b) c ⊆ rows c := by
    intro c
    by_cases hc : c = b
    · subst hc
      rw [update_self]
      exact h.shrinking c hb hne
    · rw [update_of_ne hc]
  refine ⟨?_, fun c hc => ?_, fun a c hdom => ?_, fun c hc hc0 => ?_⟩
  · rw [update_of_ne hne.symm]
    exact h.first
  · rw [update_of_ne fun hcb : c = b => hc (hcb ▸ hb)]
    exact h.outside c hc
  · by_cases hc : c = b
    · subst hc
      rw [update_self]
      exact hg.meet_above h.above hdom
    · rw [update_of_ne hc]
      exact h.above a c hdom
  · refine (meet_mono hle c).trans ?_
    by_cases hcb : c = b
    · subst hcb
      rw [update_self]
    · rw [update_of_ne hcb]
      exact h.shrinking c hc hc0

theorem Table.cells_lt (h : Table G g rows) (hb : b ∈ g.reachable) (hne : b ≠ 0)
    (hchange : meet g rows b ≠ rows b) :
    cells G (Function.update rows b (meet g rows b)) < cells G rows := by
  refine Finset.sum_lt_sum (fun c _ => ?_) ⟨b, hg.reachable_subset hb, ?_⟩
  · by_cases hc : c = b
    · subst hc
      rw [update_self]
      exact Finset.card_le_card (h.shrinking c hb hne)
    · rw [update_of_ne hc]
  · rw [update_self]
    exact Finset.card_lt_card ((h.shrinking b hb hne).ssubset_of_ne hchange)

/-- One round over the blocks: nothing changed and every row is that of its
predecessors, or the table got smaller. -/
theorem Read.total_round (htable : Table G g rows) :
    Total ((List.range' 1 (g.n - 1)).foldlM (LoopAnalysis.meetBlock g) ⟨rows, false⟩) fun t =>
      Table G g t.rows ∧ (t.changed = true → cells G t.rows < cells G rows) ∧
        (t.changed = false → t.rows = rows ∧
          ∀ b ∈ g.reachable, b ≠ 0 → meet g rows b = rows b) := by
  refine (Total.foldlM (I := fun d t => Table G g t.rows ∧
    (t.changed = true → cells G t.rows < cells G rows) ∧ (t.changed = false → t.rows = rows ∧
      ∀ b ∈ d, b ∈ g.reachable → meet g rows b = rows b)) (List.range' 1 (g.n - 1)) ?_
    ⟨htable, by simp, by simp⟩).mono ?_
  · rintro d b r t hsplit ⟨ht, hless, hsame⟩
    have hb : b ∈ List.range' 1 (g.n - 1) := hsplit ▸ List.mem_append_right d List.mem_cons_self
    have hne : b ≠ 0 := by
      have := List.mem_range'_1.mp hb
      omega
    refine (total_meetBlock t b).mono ?_
    rintro t' rfl
    split
    case isTrue hchange =>
      have hcells := ht.cells_lt hg hchange.1 hne hchange.2
      refine ⟨ht.update hg hchange.1 hne, fun _ => ?_, fun h => by cases h⟩
      cases hchanged : t.changed with
      | false => rwa [(hsame hchanged).1] at hcells ⊢
      | true => exact hcells.trans (hless hchanged)
    case isFalse hkeep =>
      refine ⟨ht, hless, fun hfalse => ⟨(hsame hfalse).1, fun c hc hcr => ?_⟩⟩
      rcases List.mem_append.mp hc with hc | hc
      · exact (hsame hfalse).2 c hc hcr
      · obtain rfl := List.mem_singleton.mp hc
        rw [← (hsame hfalse).1]
        exact not_not.mp fun h => hkeep ⟨hcr, h⟩
  · rintro t ⟨ht, hless, hsame⟩
    refine ⟨ht, hless, fun hfalse => ⟨(hsame hfalse).1, fun b hb hne => ?_⟩⟩
    refine (hsame hfalse).2 b (List.mem_range'_1.mpr ?_) hb
    have := Finset.mem_range.mp (hg.reachable_subset hb)
    rw [hg.n_eq]
    omega

/-- A table that no round changes is dominance. -/
theorem Table.exact (h : Table G g rows)
    (hfix : ∀ b ∈ g.reachable, b ≠ 0 → meet g rows b = rows b) (a b : Nat) :
    a ∈ rows b ↔ Dominates G.Edge 0 a b := by
  refine ⟨fun ha => ?_, h.above a b⟩
  have hb : b ∈ g.reachable := by
    by_contra hb
    rw [h.outside b hb] at ha
    exact Finset.notMem_empty a ha
  refine FlowGraph.dominates_of_closed (S := fun b => ↑(rows b)) ?_ (fun c u hc hu hedge x hx => ?_)
    ((hg.mem_reachable b).mp hb) ha
  · rw [h.first, Finset.coe_singleton]
  · have hcr := (hg.mem_reachable c).mpr (hu.edge hedge)
    rw [← hfix c hcr hc] at hx
    rcases Finset.mem_insert.mp hx with rfl | hx
    · exact Set.mem_insert _ _
    · exact Set.mem_insert_of_mem _ ((Finset.mem_filter.mp hx).2 u
        ((hg.mem_predecessors u c).mpr hedge) ((hg.mem_reachable u).mpr hu))

theorem Read.total_dominatorRows :
    Total (LoopAnalysis.dominatorRows g) fun rows =>
      ∀ a b, a ∈ rows b ↔ Dominates G.Edge 0 a b := by
  refine .bind (Total.repeatWhile (I := fun t => Table G g t.rows ∧ (t.changed = false →
      ∀ b ∈ g.reachable, b ≠ 0 → meet g t.rows b = t.rows b))
    (fun t => cells G t.rows + t.changed.toNat) ?_ ⟨hg.table_initial, by simp⟩) ?_
  · rintro ⟨rows, changed⟩ round ⟨htable, -⟩ hround
    cases changed with
    | false => cases hround
    | true =>
      obtain rfl := Option.some.inj hround
      obtain ⟨c, ⟨rows', changed'⟩, hpays, htable', hless, hsame⟩ := hg.total_round htable
      cases changed' with
      | false =>
        obtain ⟨rfl, hfix⟩ := hsame rfl
        exact ⟨c, _, hpays, ⟨htable', fun _ => hfix⟩, Nat.lt_succ_self _, .inr rfl⟩
      | true =>
        refine ⟨c, _, hpays, ⟨htable', by simp⟩, Nat.add_lt_add_right (hless rfl) 1, .inl ?_⟩
        refine hpays.pos ?_
        -- without work the round stops at its first block
        cases hblocks : List.range' 1 (g.n - 1) with
        | nil =>
          have hend := hpays 0
          rw [hblocks] at hend
          cases c <;> simp [pure, StateT.pure] at hend
        | cons b rest => rfl
  · rintro ⟨rows, changed⟩ ⟨⟨htable, hfix⟩, hend⟩
    cases changed with
    | false => exact .pure fun a b => htable.exact hg (hfix rfl) a b
    | true => cases hend

/-! ## The order of the edges -/

omit hg

/-- The edges of a block other than back edges. -/
def forwards (g : LoopAnalysis.Blocks) (rows : Nat → Finset Nat) (block : Nat) : List Nat :=
  if block ∈ g.reachable then (g.successors block).filter (· ∉ rows block) else []

theorem total_indegrees :
    Total (LoopAnalysis.indegrees g rows) fun indegree =>
      ∀ v, indegree v = ∑ u ∈ Finset.range g.n, (forwards g rows u).count v := by
  refine (Total.foldlM (I := fun d (indegree : Nat → Nat) =>
    ∀ v, indegree v = (d.map fun u => (forwards g rows u).count v).sum) (List.range g.n) ?_
    (by simp)).mono ?_
  · intro d block r indegree _ hindegree
    refine .spend 1 ?_
    by_cases hblock : block ∈ g.reachable
    case neg =>
      rw [if_neg hblock]
      exact .pure fun v => by simp [hindegree v, forwards, hblock]
    rw [if_pos hblock]
    refine (Total.foldlM (I := fun d' (indegree' : Nat → Nat) =>
      ∀ v, indegree' v = indegree v + (d'.filter (· ∉ rows block)).count v) (g.successors block) ?_
      (by simp)).mono ?_
    · intro d' target r' indegree' _ hindegree'
      refine .spend 1 (.pure fun v => ?_)
      by_cases hback : target ∈ rows block
      · rw [if_pos hback, hindegree' v]
        simp [hback]
      · rw [if_neg hback, List.filter_append, List.count_append]
        by_cases hv : v = target
        · subst hv
          rw [update_self, hindegree' v]
          simp [hback, Nat.add_assoc]
        · rw [update_of_ne hv, hindegree' v]
          simp [hback, Ne.symm hv]
    · intro indegree' hindegree' v
      rw [hindegree' v, hindegree v]
      simp [forwards, hblock]
  · intro indegree hindegree v
    rw [hindegree v]
    exact (Multiset.sum_coe _).symm

/-- What the ordering keeps, with the blocks ordered so far. The edges left are
those of the other blocks; `extra` are the edges of the block that is being
taken away. -/
structure Ordering (g : LoopAnalysis.Blocks) (rows : Nat → Finset Nat) (ordered : Finset Nat)
    (extra : List Nat) (s : LoopAnalysis.EdgeOrder) : Prop where
  reached : ordered ⊆ g.reachable
  visited : s.visited = ordered.card
  left : ∀ v, s.indegree v =
    ∑ u ∈ Finset.range g.n \ ordered, (forwards g rows u).count v + extra.count v
  pending : ∀ v, v ∈ s.pending ↔ v ∈ g.reachable ∧ v ∉ ordered ∧ s.indegree v = 0
  nodup : s.pending.Nodup

/-- The blocks ordered so far can be ranked: all edges into one of them come from
another one before it. -/
def Ranked (g : LoopAnalysis.Blocks) (rows : Nat → Finset Nat) (ordered : Finset Nat) : Prop :=
  ∃ rank : Nat → Nat, (∀ u ∈ ordered, rank u < ordered.card) ∧
    ∀ u v, v ∈ ordered → v ∈ forwards g rows u → u ∈ ordered ∧ rank u < rank v

theorem Ranked.insert (h : Ranked g rows ordered) (hb : b ∉ ordered)
    (hin : ∀ u, b ∈ forwards g rows u → u ∈ ordered) (hself : b ∉ forwards g rows b) :
    Ranked g rows (insert b ordered) := by
  obtain ⟨rank, hlt, hrank⟩ := h
  refine ⟨Function.update rank b ordered.card, fun u hu => ?_, fun u v hv hedge => ?_⟩
  · rw [Finset.card_insert_of_notMem hb]
    rcases Finset.mem_insert.mp hu with rfl | hu
    · rw [update_self]
      exact Nat.lt_succ_self _
    · rw [update_of_ne (ne_of_mem_of_not_mem hu hb)]
      exact (hlt u hu).trans (Nat.lt_succ_self _)
  · rcases Finset.mem_insert.mp hv with rfl | hv
    · have hu := hin u hedge
      rw [update_self, update_of_ne (ne_of_mem_of_not_mem hu hb)]
      exact ⟨Finset.mem_insert_of_mem hu, hlt u hu⟩
    · obtain ⟨hu, hless⟩ := hrank u v hv hedge
      rw [update_of_ne (ne_of_mem_of_not_mem hv hb),
        update_of_ne (ne_of_mem_of_not_mem hu hb)]
      exact ⟨Finset.mem_insert_of_mem hu, hless⟩

/-- Take one edge away. -/
theorem Ordering.total_removeEdge {block target : Nat} {rest : List Nat}
    (h : Ordering g rows ordered ((target :: rest).filter (· ∉ rows block)) s)
    (htarget : target ∈ g.reachable) (hnew : target ∉ rows block → target ∉ ordered) :
    Total (LoopAnalysis.removeEdge rows block s target) fun s' =>
      Ordering g rows ordered (rest.filter (· ∉ rows block)) s' := by
  refine .spend 1 ?_
  by_cases hback : target ∈ rows block
  case pos =>
    rw [if_pos hback]
    simp only [List.filter_cons, hback, not_true_eq_false, decide_false, Bool.false_eq_true,
      if_false] at h
    exact .pure h
  rw [if_neg hback]
  simp only [List.filter_cons, hback, not_false_eq_true, decide_true, if_true] at h
  have hleft := h.left target
  rw [List.count_cons_self] at hleft
  cases hdegree : s.indegree target with
  | zero => omega
  | succ left =>
    -- the target was not pending, since the edge was left
    have hwait : target ∉ s.pending := fun hmem => by
      have := ((h.pending target).mp hmem).2.2
      omega
    refine .pure ⟨h.reached, h.visited, fun v => ?_, fun v => ?_, ?_⟩
    · dsimp only
      by_cases hv : v = target
      · subst hv
        rw [update_self]
        omega
      · rw [update_of_ne hv, h.left v, List.count_cons_of_ne (Ne.symm hv)]
    · dsimp only
      by_cases hv : v = target
      · subst hv
        by_cases hzero : left = 0
        · simp [hzero, htarget, hnew hback]
        · simp [hzero, hwait]
      · have hmem : v ∈ (if left = 0 then target :: s.pending else s.pending) ↔ v ∈ s.pending := by
          split <;> simp [hv]
        rw [hmem, update_of_ne hv]
        exact h.pending v
    · dsimp only
      split
      · exact List.nodup_cons.mpr ⟨hwait, h.nodup⟩
      · exact h.nodup

/-- An edge left of a block that was not ordered yet. -/
theorem Ordering.left_pos (h : Ordering g rows ordered [] s) (hu : u < g.n) (hnew : u ∉ ordered)
    (hedge : v ∈ forwards g rows u) : s.indegree v ≠ 0 := by
  have hmem : u ∈ Finset.range g.n \ ordered :=
    Finset.mem_sdiff.mpr ⟨Finset.mem_range.mpr hu, hnew⟩
  have hle := Finset.single_le_sum (fun u _ => Nat.zero_le ((forwards g rows u).count v)) hmem
  have hpos := List.count_pos_iff.mpr hedge
  have hleft := h.left v
  rw [List.count_nil] at hleft
  omega

section

variable (hrows : ∀ a b, a ∈ rows b ↔ Dominates G.Edge 0 a b)
include hg hrows

theorem Read.mem_forwards (u v : Nat) : v ∈ forwards g rows u ↔ Forward G.Edge 0 u v := by
  unfold forwards
  split
  case isTrue hu =>
    rw [List.mem_filter, hg.successors_eq, decide_eq_true_iff, hrows]
    exact ⟨fun h => ⟨h.1, (hg.mem_reachable u).mp hu, h.2⟩, fun h => ⟨h.edge, h.forward⟩⟩
  case isFalse hu =>
    exact ⟨fun h => (by cases h), fun h => absurd ((hg.mem_reachable u).mpr h.reached) hu⟩

/-- A pending block is ordered: its edges are taken away. -/
theorem Read.total_orderBlock {block : Nat} {rest : List Nat} (h : Ordering g rows ordered [] s)
    (hranked : Ranked g rows ordered) (hpending : s.pending = block :: rest) :
    Total ((g.successors block).foldlM (LoopAnalysis.removeEdge rows block)
        { s with pending := rest, visited := s.visited + 1 }) fun s' =>
      block ∉ ordered ∧ block ∈ g.reachable ∧ Ordering g rows (insert block ordered) [] s' ∧
        Ranked g rows (insert block ordered) := by
  obtain ⟨hblock, hnew, hzero⟩ := (h.pending block).mp (hpending ▸ List.mem_cons_self)
  have hreach := (hg.mem_reachable block).mp hblock
  have hlt : block < g.n := hg.n_eq ▸ lt_of_reaches hreach
  have hself : block ∉ forwards g rows block := fun hmem =>
    ((hg.mem_forwards hrows block block).mp hmem).forward (.refl hreach)
  obtain ⟨hfirst, hnodup⟩ := List.nodup_cons.mp (hpending ▸ h.nodup)
  have hin : ∀ u, block ∈ forwards g rows u → u ∈ ordered := by
    intro u hu
    by_contra hnot
    have hedge := (hg.mem_forwards hrows u block).mp hu
    exact h.left_pos (hg.n_eq ▸ hedge.edge.lt_left) hnot hu hzero
  -- the edges of the block move from the sum to `extra`
  have hforwards : forwards g rows block = (g.successors block).filter (· ∉ rows block) :=
    if_pos hblock
  have hstart : Ordering g rows (insert block ordered)
      ((g.successors block).filter (· ∉ rows block))
      { s with pending := rest, visited := s.visited + 1 } := by
    refine ⟨Finset.insert_subset hblock h.reached, ?_, fun v => ?_, fun v => ?_, hnodup⟩
    · rw [Finset.card_insert_of_notMem hnew]
      exact congrArg (· + 1) h.visited
    · have hmem : block ∈ Finset.range g.n \ ordered :=
        Finset.mem_sdiff.mpr ⟨Finset.mem_range.mpr hlt, hnew⟩
      rw [← hforwards, Finset.sdiff_insert]
      dsimp only
      rw [h.left v, List.count_nil, Nat.add_zero, Finset.sum_erase_add _ _ hmem]
    · dsimp only
      have hmem := h.pending v
      rw [hpending, List.mem_cons] at hmem
      rw [Finset.mem_insert, not_or]
      grind
  refine (Total.foldlM (I := fun d s' => ∀ r, g.successors block = d ++ r →
    Ordering g rows (insert block ordered) (r.filter (· ∉ rows block)) s')
    (g.successors block) ?_ ?_).mono ?_
  · intro d target r s' hsplit hs'
    have hedge : G.Edge block target := by
      unfold Edge
      rw [← hg.successors_eq, hsplit]
      exact List.mem_append_right d List.mem_cons_self
    refine ((hs' _ hsplit).total_removeEdge ((hg.mem_reachable target).mpr (hreach.edge hedge))
      fun hback hmem => ?_).mono fun s'' hs'' r' hr' => ?_
    · -- a block ordered before has no edge from this one
      have hforward : target ∈ forwards g rows block :=
        (hg.mem_forwards hrows _ _).mpr ⟨hedge, hreach, fun hd => hback ((hrows _ _).mpr hd)⟩
      rcases Finset.mem_insert.mp hmem with rfl | hmem
      · exact hself hforward
      · obtain ⟨rank, -, hrank⟩ := hranked
        exact hnew (hrank block target hmem hforward).1
    · rw [hsplit, List.append_assoc] at hr'
      obtain rfl := List.cons.inj (List.append_cancel_left hr') |>.2
      exact hs''
  · intro r hr
    obtain rfl : g.successors block = r := hr
    exact hstart
  · intro s' hs'
    refine ⟨hnew, hblock, ?_, hranked.insert hnew hin hself⟩
    exact hs' [] (List.append_nil _).symm

/-- The ordering takes every block that can be reached exactly if the graph is
reducible. -/
theorem Read.total_orderEdges {indegree : Nat → Nat}
    (hdegree : ∀ v, indegree v = ∑ u ∈ Finset.range g.n, (forwards g rows u).count v) :
    Total (LoopAnalysis.orderEdges g rows indegree) fun s =>
      s.visited = g.reachable.card ↔ Reducible G.Edge 0 := by
  refine (Total.repeatWhile (I := fun s => ∃ ordered, Ordering g rows ordered [] s ∧
      Ranked g rows ordered) (fun s => g.reachable.card - s.visited) ?_
    ⟨∅, ⟨Finset.empty_subset _, rfl, fun v => ?_, fun v => ?_, ?_⟩, ?_⟩).mono ?_
  · rintro s round ⟨ordered, h, hranked⟩ hround
    cases hpending : s.pending with
    | nil => simp [hpending] at hround
    | cons block rest =>
      simp only [hpending, Option.some.injEq] at hround
      subst hround
      obtain ⟨c, s', hpays, ⟨hnew, hblock, h', hranked'⟩, hc⟩ :=
        Total.round (Nat.le_refl 1) (hg.total_orderBlock hrows h hranked hpending)
      refine ⟨c, s', hpays, ⟨insert block ordered, h', hranked'⟩, ?_, .inl hc⟩
      have hle := Finset.card_le_card h'.reached
      rw [h'.visited, h.visited]
      rw [Finset.card_insert_of_notMem hnew] at hle ⊢
      omega
  · rw [Finset.sdiff_empty, List.count_nil, Nat.add_zero]
    exact hdegree v
  · simp only [List.mem_reverse, List.mem_filter, List.mem_range, decide_eq_true_iff,
      Finset.notMem_empty, not_false_eq_true, true_and]
    refine and_iff_right_of_imp fun hv => hg.n_eq ▸ ?_
    exact Finset.mem_range.mp (hg.reachable_subset hv.1)
  · exact List.nodup_reverse.mpr (List.nodup_range.filter _)
  · exact ⟨fun _ => 0, by simp, by simp⟩
  · rintro s ⟨⟨ordered, h, rank, -, hrank⟩, hend⟩
    have hempty : s.pending = [] := by
      cases hpending : s.pending with
      | nil => rfl
      | cons => simp [hpending] at hend
    rw [h.visited]
    constructor
    · intro hcard
      obtain rfl := Finset.eq_of_subset_of_card_le h.reached hcard.ge
      refine FlowGraph.reducible_of_order rank fun u v hforward => ?_
      have hv := (hg.mem_reachable v).mpr (hforward.reached.edge hforward.edge)
      exact (hrank u v hv ((hg.mem_forwards hrows u v).mpr hforward)).2
    · intro hred
      by_contra hcard
      -- the blocks left all wait for another one of them
      refine FlowGraph.no_closed_set hred (S := ↑(g.reachable \ ordered))
        (Finset.finite_toSet _) ?_ fun v hv => ?_
      · rw [Finset.coe_nonempty, Finset.sdiff_nonempty]
        exact fun hsub => hcard (congrArg Finset.card (h.reached.antisymm hsub))
      · obtain ⟨hv, hnew⟩ := Finset.mem_sdiff.mp hv
        have hwait : s.indegree v ≠ 0 := by
          intro hzero
          have hmem := (h.pending v).mpr ⟨hv, hnew, hzero⟩
          rw [hempty] at hmem
          cases hmem
        rw [h.left v, List.count_nil, Nat.add_zero] at hwait
        obtain ⟨u, hu, hcount⟩ := Finset.exists_ne_zero_of_sum_ne_zero hwait
        have hedge := (hg.mem_forwards hrows u v).mp
          (List.count_pos_iff.mp (Nat.pos_of_ne_zero hcount))
        refine ⟨u, Finset.mem_sdiff.mpr ⟨?_, (Finset.mem_sdiff.mp hu).2⟩, hedge⟩
        exact (hg.mem_reachable u).mpr hedge.reached

end

end BlockGraph

end QuickJit
