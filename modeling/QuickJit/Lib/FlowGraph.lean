import Mathlib

/-
  Flow graphs: paths from an entry, dominance, natural loops and reducibility.

  A graph is a relation on any type with an entry. `Dominates` is the definition
  by paths. Two facts make it computable: dominance passes from a node to its
  predecessors (`Dominates.pred`), and every family of sets that does the same
  lies below it (`dominates_of_closed`), so it is the greatest such family.

  A graph is reducible if every cycle has a node that dominates all of it. That
  is the case if the edges other than back edges can be ordered
  (`reducible_of_order`), and only if no finite set of nodes is closed under
  them backwards (`no_closed_set`). Natural loops with headers in reach nest
  (`InLoop.nested`).
-/

namespace QuickJit

namespace FlowGraph

variable {V : Type} {E : V → V → Prop} {entry a b c h k u v x : V} {p q : List V}

/-! ## Paths -/

/-- `p` lists the nodes of a path from `a` to `b`, both included. -/
inductive Path (E : V → V → Prop) : V → List V → V → Prop
  | single (a : V) : Path E a [a] a
  | cons {a b c : V} {p : List V} (hedge : E a b) (hpath : Path E b p c) : Path E a (a :: p) c

namespace Path

section

variable (hp : Path E a p b)

include hp

theorem head_eq : ∃ q, p = a :: q := by
  cases hp with
  | single => exact ⟨[], rfl⟩
  | cons => exact ⟨_, rfl⟩

theorem first_mem : a ∈ p := by
  cases hp with
  | single => exact List.mem_singleton_self a
  | cons => exact List.mem_cons_self

theorem last_mem : b ∈ p := by
  induction hp with
  | single a => exact List.mem_singleton_self a
  | cons _ _ ih => exact List.mem_cons_of_mem _ ih

theorem snoc (hedge : E b c) : Path E a (p ++ [c]) c := by
  induction hp with
  | single a => exact .cons hedge (.single c)
  | cons hfirst _ ih => exact .cons hfirst (ih hedge)

theorem append (hedge : E b c) (hq : Path E c q v) : Path E a (p ++ q) v := by
  induction hp with
  | single a => exact .cons hedge hq
  | cons hfirst _ ih => exact .cons hfirst (ih hedge)

/-- A path ends with an edge, or has one node. -/
theorem last_edge :
    (a = b ∧ p = [a]) ∨ ∃ u q, Path E a q u ∧ E u b ∧ p = q ++ [b] := by
  induction hp with
  | single a => exact .inl ⟨rfl, rfl⟩
  | cons hedge hpath ih =>
    rcases ih with ⟨rfl, rfl⟩ | ⟨u, q, hq, hlast, rfl⟩
    · exact .inr ⟨_, _, .single _, hedge, rfl⟩
    · exact .inr ⟨u, _, .cons hedge hq, hlast, rfl⟩

/-- The part of a path up to its first node with a property. -/
theorem first {P : V → Prop} (hx : ∃ x ∈ p, P x) :
    ∃ x q, P x ∧ Path E a (q ++ [x]) x ∧ (∀ y ∈ q, ¬ P y) ∧ q ++ [x] ⊆ p := by
  obtain ⟨x, hmem, hx⟩ := hx
  induction hp with
  | single a => exact ⟨a, [], List.mem_singleton.mp hmem ▸ hx, .single a, nofun, fun _ => id⟩
  | @cons a _ _ p hedge _ ih =>
    by_cases ha : P a
    · exact ⟨a, [], ha, .single a, nofun, by simp⟩
    · have hrest : x ∈ p := (List.mem_cons.mp hmem).resolve_left fun h => ha (h ▸ hx)
      obtain ⟨z, q, hz, hq, hfree, hsub⟩ := ih hrest
      exact ⟨z, a :: q, hz, .cons hedge hq, List.forall_mem_cons.mpr ⟨ha, hfree⟩,
        List.cons_subset_cons a hsub⟩

/-- The part of a path from its last node with a property. -/
theorem last {P : V → Prop} (hx : ∃ x ∈ p, P x) :
    ∃ x q, P x ∧ Path E x (x :: q) b ∧ (∀ y ∈ q, ¬ P y) ∧ x :: q ⊆ p := by
  induction hp with
  | single a =>
    obtain ⟨x, hmem, hx⟩ := hx
    exact ⟨a, [], List.mem_singleton.mp hmem ▸ hx, .single a, nofun, fun _ => id⟩
  | @cons a _ _ p hedge hp ih =>
    by_cases hrest : ∃ x ∈ p, P x
    · obtain ⟨z, q, hz, hq, hfree, hsub⟩ := ih hrest
      exact ⟨z, q, hz, hq, hfree, fun y hy => List.mem_cons_of_mem _ (hsub hy)⟩
    · obtain ⟨x, hmem, hx⟩ := hx
      obtain rfl := (List.mem_cons.mp hmem).resolve_right fun h => hrest ⟨x, h, hx⟩
      exact ⟨x, p, hx, .cons hedge hp, fun y hy hPy => hrest ⟨y, hy, hPy⟩, fun _ => id⟩

theorem upTo (hx : x ∈ p) : ∃ q, Path E a q x ∧ q ⊆ p := by
  obtain ⟨_, q, rfl, hq, -, hsub⟩ := hp.first ⟨x, hx, rfl⟩
  exact ⟨q ++ [x], hq, hsub⟩

theorem from_mem (hx : x ∈ p) : ∃ q, Path E x q b ∧ q ⊆ p := by
  obtain ⟨_, q, rfl, hq, -, hsub⟩ := hp.last ⟨x, hx, rfl⟩
  exact ⟨x :: q, hq, hsub⟩

end

/-- A node after the first is entered by an edge of the path. -/
theorem entered (hp : Path E a (a :: p) b) (hx : x ∈ p) : ∃ u ∈ a :: p, E u x := by
  induction p generalizing a with
  | nil => cases hx
  | cons y p ih =>
    cases hp with
    | cons hedge hpath =>
      obtain ⟨q, hq⟩ := hpath.head_eq
      obtain ⟨rfl, rfl⟩ := List.cons.inj hq
      rcases List.mem_cons.mp hx with rfl | hx
      · exact ⟨a, List.mem_cons_self, hedge⟩
      · obtain ⟨u, hu, hux⟩ := ih hpath hx
        exact ⟨u, List.mem_cons_of_mem _ hu, hux⟩

/-- Two paths one after the other. -/
theorem trans (hp : Path E a p b) (hq : Path E b q c) :
    ∃ r, Path E a r c ∧ ∀ x ∈ r, x ∈ p ∨ x ∈ q := by
  induction hp with
  | single a => exact ⟨q, hq, fun _ => .inr⟩
  | @cons a b c p hedge hpath ih =>
    obtain ⟨r, hr, hmem⟩ := ih hq
    refine ⟨a :: r, .cons hedge hr, fun x hx => ?_⟩
    rcases List.mem_cons.mp hx with rfl | hx
    · exact .inl List.mem_cons_self
    · exact (hmem x hx).imp_left (List.mem_cons_of_mem _)

theorem glue (hp : Path E a p b) (hq : Path E b (b :: q) c) : Path E a (p ++ q) c := by
  induction hp with
  | single a => exact hq
  | cons hedge _ ih => exact .cons hedge (ih hq)

theorem mono {E' : V → V → Prop} (hsub : ∀ u v, E u v → E' u v) (hp : Path E a p b) :
    Path E' a p b := by
  induction hp with
  | single a => exact .single a
  | cons hedge _ ih => exact .cons (hsub _ _ hedge) ih

end Path

/-- Some path leads from `a` to `b`. -/
def Reaches (E : V → V → Prop) (a b : V) : Prop := ∃ p, Path E a p b

theorem Reaches.refl (a : V) : Reaches E a a := ⟨[a], .single a⟩

theorem Reaches.edge (hr : Reaches E a b) (hedge : E b c) : Reaches E a c :=
  hr.elim fun p hp => ⟨p ++ [c], hp.snoc hedge⟩

/-! ## Dominance -/

/-- `b` can be reached, and every path from the entry to it passes `a`. -/
structure Dominates (E : V → V → Prop) (entry a b : V) : Prop where
  reached : Reaches E entry b
  passes : ∀ p, Path E entry p b → a ∈ p

theorem Dominates.refl (hb : Reaches E entry b) : Dominates E entry b b :=
  ⟨hb, fun _ hp => hp.last_mem⟩

theorem dominates_entry : Dominates E entry a entry ↔ a = entry := by
  constructor
  · intro h
    exact List.mem_singleton.mp (h.passes [entry] (.single entry))
  · rintro rfl
    exact .refl (.refl a)

theorem Dominates.reaches (h : Dominates E entry a b) : Reaches E entry a := by
  obtain ⟨p, hp⟩ := h.reached
  obtain ⟨q, hq, -⟩ := hp.upTo (h.passes p hp)
  exact ⟨q, hq⟩

theorem Dominates.antisymm (h : Dominates E entry a b) (h' : Dominates E entry b a) : a = b := by
  by_contra hne
  obtain ⟨p, hp⟩ := h.reached
  obtain ⟨x, q, hx, hq, hfree, -⟩ := hp.first (P := fun x => x = a ∨ x = b)
    ⟨b, hp.last_mem, .inr rfl⟩
  -- the first of the two on a path does not have the other before it
  rcases hx with rfl | rfl
  · rcases List.mem_append.mp (h'.passes _ hq) with hb | hb
    · exact hfree b hb (.inr rfl)
    · exact hne (List.mem_singleton.mp hb).symm
  · rcases List.mem_append.mp (h.passes _ hq) with ha | ha
    · exact hfree a ha (.inl rfl)
    · exact hne (List.mem_singleton.mp ha)

/-- A dominator dominates the predecessors too, unless it is the node itself. -/
theorem Dominates.pred (h : Dominates E entry a b) (hne : a ≠ b) (hu : Reaches E entry u)
    (hedge : E u b) : Dominates E entry a u := by
  refine ⟨hu, fun p hp => ?_⟩
  have hmem := h.passes (p ++ [b]) (hp.snoc hedge)
  rcases List.mem_append.mp hmem with hmem | hmem
  · exact hmem
  · exact absurd (List.mem_singleton.mp hmem) hne

/-- Every family of sets that passes to the predecessors lies below dominance. -/
theorem dominates_of_closed {S : V → Set V} (hentry : S entry ⊆ {entry})
    (hstep : ∀ b u, b ≠ entry → Reaches E entry u → E u b → S b ⊆ insert b (S u))
    (hb : Reaches E entry b) (ha : a ∈ S b) : Dominates E entry a b := by
  refine ⟨hb, fun p hp => ?_⟩
  -- by induction on the length of the path, from its end
  induction hn : p.length generalizing p b with
  | zero =>
    obtain rfl := List.length_eq_zero_iff.mp hn
    cases hp
  | succ n ih =>
    rcases hp.last_edge with ⟨rfl, rfl⟩ | ⟨u, q, hq, hedge, rfl⟩
    · exact List.mem_singleton.mpr (hentry ha)
    · by_cases hbe : b = entry
      · subst hbe
        obtain rfl : a = b := hentry ha
        exact List.mem_append_right _ (List.mem_singleton_self a)
      · rcases hstep b u hbe ⟨q, hq⟩ hedge ha with rfl | ha
        · exact List.mem_append_right _ (List.mem_singleton_self _)
        · refine List.mem_append_left _ (ih ⟨q, hq⟩ ha q hq ?_)
          simpa using hn

/-! ## Natural loops -/

/-- `u` ends a round of a loop at `h`. -/
structure Latch (E : V → V → Prop) (entry h u : V) : Prop where
  edge : E u h
  dominated : Dominates E entry h u

/-- The natural loop of a header: the header, and the nodes that reach a latch
without passing it. -/
def InLoop (E : V → V → Prop) (entry h b : V) : Prop :=
  b = h ∨ Reaches E entry b ∧ ∃ u p, Latch E entry h u ∧ Path E b p u ∧ h ∉ p

theorem InLoop.dominated (hh : Reaches E entry h) (hb : InLoop E entry h b) :
    Dominates E entry h b := by
  rcases hb with rfl | ⟨hb, u, q, hlatch, hq, hfree⟩
  · exact .refl hh
  refine ⟨hb, fun p hp => ?_⟩
  -- a path to `b` that avoids `h` goes on to the latch and still avoids it
  by_contra hnot
  cases hq with
  | single => exact hnot (hlatch.dominated.passes p hp)
  | cons hedge hrest =>
    have hmem := hlatch.dominated.passes _ (hp.append hedge hrest)
    rcases List.mem_append.mp hmem with hmem | hmem
    · exact hnot hmem
    · exact hfree (List.mem_cons_of_mem _ hmem)

/-- What leads to a loop without passing its header is in the loop. -/
theorem InLoop.along (hx : InLoop E entry h x) (ha : Reaches E entry a) (hq : Path E a (a :: q) x)
    (hfree : h ∉ q) : InLoop E entry h a := by
  by_cases hah : a = h
  · exact .inl hah
  rcases hx with rfl | ⟨-, u, p, hlatch, hp, hno⟩
  · exact absurd hq.last_mem (List.not_mem_cons_of_ne_of_not_mem (Ne.symm hah) hfree)
  obtain ⟨r, hr, hsub⟩ := hq.trans hp
  refine .inr ⟨ha, u, r, hlatch, hr, fun hmem => ?_⟩
  rcases hsub h hmem with hmem | hmem
  · exact (List.mem_cons.mp hmem).elim (Ne.symm hah) hfree
  · exact hno hmem

/-- A loop whose header is in another loop is part of that one. -/
theorem InLoop.subset (hh : Reaches E entry h) (hk : Reaches E entry k)
    (hkh : InLoop E entry h k) (hx : InLoop E entry k x) : InLoop E entry h x := by
  by_cases hne : h = k
  · exact hne ▸ hx
  rcases hx with rfl | ⟨hx, u, p, hlatch, hp, hfree⟩
  · exact hkh
  have hmem : h ∉ p := by
    intro hmem
    obtain ⟨q, hq, hsub⟩ := hp.from_mem hmem
    have hhk : InLoop E entry k h := .inr ⟨hh, u, q, hlatch, hq, fun hq => hfree (hsub hq)⟩
    exact hne ((hkh.dominated hh).antisymm (hhk.dominated hk))
  obtain ⟨q, rfl⟩ := hp.head_eq
  refine hkh.along hx (hp.snoc hlatch.edge) fun hq => ?_
  rcases List.mem_append.mp hq with hq | hq
  · exact hmem (List.mem_cons_of_mem _ hq)
  · exact hne (List.mem_singleton.mp hq)

/-- Two loops with a common node are nested. -/
theorem InLoop.nested (hh : Reaches E entry h) (hk : Reaches E entry k)
    (hx : InLoop E entry h x) (hx' : InLoop E entry k x) :
    (∀ y, InLoop E entry k y → InLoop E entry h y) ∨
      ∀ y, InLoop E entry h y → InLoop E entry k y := by
  obtain ⟨p, hp⟩ := (hx.dominated hh).reached
  have hmem : ∃ y ∈ p, y = h ∨ y = k := ⟨h, (hx.dominated hh).passes p hp, .inl rfl⟩
  -- the header met last on the way to the common node is in the other loop
  obtain ⟨z, q, hz, hq, hfree, -⟩ := hp.last hmem
  rcases hz with rfl | rfl
  · exact .inr fun y => .subset hk hh (hx'.along hh hq fun hkq => hfree k hkq (.inr rfl))
  · exact .inl fun y => .subset hh hk (hx.along hk hq fun hhq => hfree h hhq (.inl rfl))

/-! ## Reducibility -/

/-- Every cycle that can be reached has a node that dominates all of it. -/
def Reducible (E : V → V → Prop) (entry : V) : Prop :=
  ∀ a p, p ≠ [] → Path E a (a :: p) a → Reaches E entry a →
    ∃ h ∈ p, ∀ x ∈ p, Dominates E entry h x

/-- A finite set in which every node has a predecessor has a cycle. -/
theorem exists_cycle {S : Set V} (hfin : S.Finite) (hne : S.Nonempty)
    (hclosed : ∀ v ∈ S, ∃ u ∈ S, E u v) : ∃ v p, p ≠ [] ∧ Path E v (v :: p) v := by
  by_contra hno
  -- without one the relation is well founded on the set, and a least node has no predecessor
  let below : S → S → Prop := fun u v => ∃ p, p ≠ [] ∧ Path E u.1 (u.1 :: p) v.1
  have hirrefl : ∀ v, ¬ below v v := by
    rintro v ⟨p, hp, hpath⟩
    exact hno ⟨v.1, p, hp, hpath⟩
  have htrans : ∀ u v w, below u v → below v w → below u w := by
    rintro u v w ⟨p, hp, hpath⟩ ⟨q, hq, hpath'⟩
    exact ⟨p ++ q, by simp [hp], hpath.glue hpath'⟩
  have : Finite S := hfin
  have : IsTrans S below := ⟨htrans⟩
  have : Std.Irrefl below := ⟨hirrefl⟩
  have hwf : WellFounded below := Finite.wellFounded_of_trans_of_irrefl below
  obtain ⟨v, -, hmin⟩ := hwf.has_min Set.univ (hne.to_subtype.elim fun v => ⟨v, trivial⟩)
  obtain ⟨u, hu, hedge⟩ := hclosed v.1 v.2
  exact hmin ⟨u, hu⟩ trivial ⟨[v.1], by simp, .cons hedge (.single v.1)⟩

/-- An edge that is no back edge. -/
structure Forward (E : V → V → Prop) (entry u v : V) : Prop where
  edge : E u v
  reached : Reaches E entry u
  forward : ¬ Dominates E entry v u

/-- A node of a cycle that no forward edge of the cycle enters dominates the
nodes that lead to it there. -/
theorem dominates_of_back_edges {C : List V} (hreach : ∀ x ∈ C, Reaches E entry x)
    (hback : ∀ u ∈ C, ¬ Forward E entry u h) (hp : Path E x p h) (hsub : p ⊆ C) :
    Dominates E entry h x := by
  induction hp with
  | single h => exact .refl (hreach h (hsub List.mem_cons_self))
  | @cons a b h p hedge hpath ih =>
    have ha : a ∈ C := hsub List.mem_cons_self
    have hb := ih hback fun y hy => hsub (List.mem_cons_of_mem _ hy)
    by_cases hbh : h = b
    · subst hbh
      by_contra hnot
      exact hback a ha ⟨hedge, hreach a ha, hnot⟩
    · exact hb.pred hbh (hreach a ha) hedge

/-- A graph is reducible if its forward edges can be ordered. -/
theorem reducible_of_order (rank : V → Nat)
    (horder : ∀ u v, Forward E entry u v → rank u < rank v) : Reducible E entry := by
  intro a p hne hcycle ha
  have hmem : a ∈ p := by
    cases hcycle with
    | single => exact absurd rfl hne
    | cons _ hrest => exact hrest.last_mem
  have hall : ∀ x, x ∈ a :: p → x ∈ p := by
    intro x hx
    rcases List.mem_cons.mp hx with rfl | hx
    · exact hmem
    · exact hx
  have hreach : ∀ x ∈ p, Reaches E entry x := by
    intro x hx
    obtain ⟨q, hq, -⟩ := hcycle.upTo (List.mem_cons_of_mem _ hx)
    obtain ⟨q', hq'⟩ := ha
    obtain ⟨r, hr, -⟩ := hq'.trans hq
    exact ⟨r, hr⟩
  -- the first node of the cycle in the order is entered by back edges only
  obtain ⟨h, hh, hmin⟩ := Set.exists_min_image {x | x ∈ p} rank (List.finite_toSet p) ⟨a, hmem⟩
  refine ⟨h, hh, fun x hx => ?_⟩
  obtain ⟨q, hq, hqp⟩ := hcycle.from_mem (List.mem_cons_of_mem _ hx)
  obtain ⟨q', hq', hqp'⟩ := hcycle.upTo (List.mem_cons_of_mem _ hh)
  obtain ⟨r, hr, hsub⟩ := hq.trans hq'
  refine dominates_of_back_edges hreach (fun u hu hforward => ?_) hr fun y hy => ?_
  · exact absurd (horder u h hforward) (Nat.not_lt.mpr (hmin u hu))
  · exact hall y ((hsub y hy).elim (fun hy => hqp hy) fun hy => hqp' hy)

/-- In a reducible graph no finite set of nodes is closed backwards under
forward edges. -/
theorem no_closed_set (hred : Reducible E entry) {S : Set V} (hfin : S.Finite)
    (hne : S.Nonempty) (hclosed : ∀ v ∈ S, ∃ u ∈ S, Forward E entry u v) : False := by
  obtain ⟨v, p, hp, hcycle⟩ := exists_cycle hfin hne hclosed
  obtain ⟨w, hw⟩ : ∃ w, Forward E entry v w := by
    cases hcycle with
    | single => exact absurd rfl hp
    | cons hedge => exact ⟨_, hedge⟩
  obtain ⟨h, hh, hdom⟩ := hred v p hp (hcycle.mono fun _ _ he => he.edge) hw.reached
  obtain ⟨u, hu, huh⟩ := hcycle.entered hh
  refine huh.forward ?_
  rcases List.mem_cons.mp hu with rfl | hu
  · cases hcycle with
    | single => exact absurd rfl hp
    | cons _ hrest => exact hdom u hrest.last_mem
  · exact hdom u hu

end FlowGraph

end QuickJit
