import Mathlib

/-
  Facts that are joined along edges.

  A fact is missing (`none`), says something definite, or says nothing that can
  be used (`some top`); two different definite facts join to `top`. An edge from
  `i` to `j` means that the fact of `i` has to cover that of `j`. The facts are
  improved one unknown at a time, in any order (`Grows`); when no edge asks for
  more, the result is the least closed assignment above the first one
  (`Grows.least`), so the order has left no trace in it.

  A cycle that nothing feeds keeps its facts missing. `Resolves` is the result
  after these are given up and the loss is passed on.
-/

namespace QuickJit

open Function

namespace Flat

variable {α ι κ : Type} {top : α}

/-- `b` says what `a` says, or gives it up. -/
def Below (top : α) (a b : Option α) : Prop := a = none ∨ a = b ∨ b = some top

namespace Below

variable {a b c : Option α}

theorem refl (a : Option α) : Below top a a := .inr (.inl rfl)

theorem trans (hab : Below top a b) (hbc : Below top b c) : Below top a c := by
  rcases hab with rfl | rfl | rfl
  · exact .inl rfl
  · exact hbc
  · rcases hbc with h | rfl | rfl
    · cases h
    · exact .inr (.inr rfl)
    · exact .inr (.inr rfl)

theorem antisymm (hab : Below top a b) (hba : Below top b a) : a = b := by
  rcases hab with rfl | rfl | rfl
  · rcases hba with rfl | rfl | h
    · rfl
    · rfl
    · cases h
  · rfl
  · rcases hba with h | h | rfl
    · cases h
    · exact h.symm
    · rfl

/-- Below a definite fact there is only that fact. -/
theorem eq_some {x y : α} (h : Below top (some x) (some y)) (hy : y ≠ top) : x = y := by
  rcases h with h | h | h
  · cases h
  · exact Option.some.inj h
  · exact absurd (Option.some.inj h) hy

end Below

/-- The join of two facts that are there. -/
def join [DecidableEq α] (top a b : α) : α := if a = b then a else top

/-- The join of two facts. -/
def joins [DecidableEq α] (top : α) : Option α → Option α → Option α
  | none, b => b
  | some a, none => some a
  | some a, some b => some (join top a b)

theorem join_below [DecidableEq α] {a b : α} {c : Option α} :
    Below top (some (join top a b)) c ↔ Below top (some a) c ∧ Below top (some b) c := by
  unfold join
  split
  case isTrue hab =>
    subst hab
    exact ⟨fun h => ⟨h, h⟩, fun h => h.1⟩
  case isFalse hab =>
    constructor
    · rintro (h | rfl | rfl)
      · cases h
      · exact ⟨.inr (.inr rfl), .inr (.inr rfl)⟩
      · exact ⟨.inr (.inr rfl), .inr (.inr rfl)⟩
    · rintro ⟨h | rfl | rfl, hb⟩
      · cases h
      · rcases hb with h | h | h
        · cases h
        · exact absurd (Option.some.inj h).symm hab
        · exact .inr (.inr h)
      · exact .inr (.inr rfl)

theorem joins_below [DecidableEq α] {a b c : Option α} :
    Below top (joins top a b) c ↔ Below top a c ∧ Below top b c := by
  cases a with
  | none => exact ⟨fun h => ⟨.inl rfl, h⟩, fun h => h.2⟩
  | some a =>
    cases b with
    | none => exact ⟨fun h => ⟨h, .inl rfl⟩, fun h => h.1⟩
    | some b => exact join_below

/-- How far a fact can still rise. -/
def room [DecidableEq α] (top : α) : Option α → Nat
  | none => 2
  | some a => if a = top then 0 else 1

/-- A fact that changes rises. -/
theorem room_lt [DecidableEq α] {a b : Option α} (h : Below top a b) (hne : a ≠ b) :
    room top b < room top a := by
  rcases h with rfl | h | rfl
  · cases b with
    | none => exact absurd rfl hne
    | some b => by_cases hb : b = top <;> simp [room, hb]
  · exact absurd h hne
  · cases a with
    | none => simp [room]
    | some a =>
      have ha : a ≠ top := fun h => hne (congrArg some h)
      simp [room, ha]

/-! ## Assignments -/

variable {edge : ι → ι → Prop} {x y z : ι → Option α}

/-- Every fact covers those it has an edge to. -/
def Closed (top : α) (edge : ι → ι → Prop) (x : ι → Option α) : Prop :=
  ∀ i j, edge i j → Below top (x j) (x i)

/-- `y` is the least closed assignment above `x`. -/
structure Least (top : α) (edge : ι → ι → Prop) (x y : ι → Option α) : Prop where
  above : ∀ i, Below top (x i) (y i)
  closed : Closed top edge y
  least : ∀ z, Closed top edge z → (∀ i, Below top (x i) (z i)) → ∀ i, Below top (y i) (z i)

/-- `y` has risen from `x`, but not over any closed assignment above `x`. -/
structure Grows (top : α) (edge : ι → ι → Prop) (x y : ι → Option α) : Prop where
  above : ∀ i, Below top (x i) (y i)
  under : ∀ z, Closed top edge z → (∀ i, Below top (x i) (z i)) → ∀ i, Below top (y i) (z i)

namespace Grows

theorem refl (x : ι → Option α) : Grows top edge x x := ⟨fun i => .refl (x i), fun _ _ h => h⟩

theorem trans (hxy : Grows top edge x y) (hyz : Grows top edge y z) : Grows top edge x z :=
  ⟨fun i => (hxy.above i).trans (hyz.above i),
    fun w hw hxw => hyz.under w hw (hxy.under w hw hxw)⟩

/-- Joining facts of its inputs into one unknown. -/
theorem update [DecidableEq ι] {i : ι} {a : Option α} (habove : Below top (x i) a)
    (hunder : ∀ c, Below top (x i) c → (∀ j, edge i j → Below top (x j) c) → Below top a c) :
    Grows top edge x (update x i a) := by
  refine ⟨fun j => ?_, fun z hz hxz j => ?_⟩
  · rcases eq_or_ne j i with rfl | hne
    · rwa [update_self]
    · rw [update_of_ne hne]
      exact .refl _
  · rcases eq_or_ne j i with rfl | hne
    · rw [update_self]
      exact hunder (z j) (hxz j) fun k hk => (hxz k).trans (hz j k hk)
    · rw [update_of_ne hne]
      exact hxz j

theorem least (h : Grows top edge x y) (hy : Closed top edge y) : Least top edge x y :=
  ⟨h.above, hy, h.under⟩

end Grows

namespace Least

theorem unique (h : Least top edge x y) (h' : Least top edge x z) : y = z :=
  funext fun i => (h.least z h'.closed h'.above i).antisymm (h'.least y h.closed h.above i)

/-- An unknown without edges keeps its fact. -/
theorem eq_of_no_edge (h : Least top edge x y) {i : ι} (hi : ∀ j, ¬ edge i j) : y i = x i := by
  classical
  have hclosed : Closed top edge (update y i (x i)) := by
    intro k j hkj
    have hki : k ≠ i := fun heq => hi j (heq ▸ hkj)
    rw [update_of_ne hki]
    rcases eq_or_ne j i with rfl | hji
    · rw [update_self]
      exact (h.above j).trans (h.closed k j hkj)
    · rw [update_of_ne hji]
      exact h.closed k j hkj
  have habove : ∀ k, Below top (x k) (update y i (x i) k) := by
    intro k
    rcases eq_or_ne k i with rfl | hki
    · rw [update_self]
      exact .refl _
    · rw [update_of_ne hki]
      exact h.above k
  have hle := h.least _ hclosed habove i
  rw [update_self] at hle
  exact hle.antisymm (h.above i)

/-- `i` has the fact `a`, but nothing it can reach started with it. -/
def Groundless (edge : ι → ι → Prop) (x y : ι → Option α) (a : α) (i : ι) : Prop :=
  y i = some a ∧ ∀ j, Relation.ReflTransGen edge i j → x j ≠ some a

open Classical in
/-- The assignment without its groundless facts. -/
noncomputable def withdrawn (edge : ι → ι → Prop) (x y : ι → Option α) (a : α) : ι → Option α :=
  fun i => if Groundless edge x y a i then none else y i

theorem withdrawn_below {a : α} (htop : a ≠ top) {b : Option α} {i : ι}
    (hle : Below top b (y i)) (hb : Groundless edge x y a i → b ≠ some a) :
    Below top b (withdrawn edge x y a i) := by
  unfold withdrawn
  split
  case isTrue hi =>
    rw [hi.1] at hle
    rcases hle with rfl | rfl | htop'
    · exact .refl _
    · exact absurd rfl (hb hi)
    · exact absurd (Option.some.inj htop') htop
  case isFalse => exact hle

theorem withdrawn_closed {a : α} (htop : a ≠ top) (h : Closed top edge y) :
    Closed top edge (withdrawn edge x y a) := by
  intro i j hij
  by_cases hj : Groundless edge x y a j
  · rw [withdrawn, if_pos hj]
    exact .inl rfl
  · have hfact : withdrawn edge x y a j = y j := by rw [withdrawn, if_neg hj]
    rw [hfact]
    exact withdrawn_below htop (h i j hij)
      fun hi hja => hj ⟨hja, fun k hk => hi.2 k (.head hij hk)⟩

/-- A definite fact comes from somewhere. -/
theorem seeded (h : Least top edge x y) {i : ι} {a : α} (ha : y i = some a) (htop : a ≠ top) :
    ∃ j, Relation.ReflTransGen edge i j ∧ x j = some a := by
  by_contra hno
  push Not at hno
  have hle := h.least _ (withdrawn_closed htop h.closed)
    (fun k => withdrawn_below htop (h.above k) fun hk => hk.2 k .refl) i
  rw [withdrawn, if_pos ⟨ha, hno⟩, ha] at hle
  rcases hle with h | h | h <;> cases h

theorem rename {edge' : κ → κ → Prop} (σ : ι ≃ κ) (hedge : ∀ i j, edge' (σ i) (σ j) ↔ edge i j)
    (h : Least top edge x y) : Least top edge' (x ∘ σ.symm) (y ∘ σ.symm) := by
  refine ⟨fun k => h.above _, fun k l hkl => h.closed _ _ ?_, fun z hz hxz k => ?_⟩
  · rw [← hedge, σ.apply_symm_apply, σ.apply_symm_apply]
    exact hkl
  · have hle := h.least (z ∘ σ) (fun i j hij => hz _ _ ((hedge i j).mpr hij))
      (fun i => by simpa using hxz (σ i)) (σ.symm k)
    simpa using hle

end Least

/-- Every definite fact is that of all it can reach. -/
theorem Closed.reaches (h : Closed top edge y) (hall : ∀ i, y i ≠ none) {i j : ι} {a : α}
    (ha : y i = some a) (htop : a ≠ top) (hij : Relation.ReflTransGen edge i j) :
    y j = some a := by
  induction hij with
  | refl => exact ha
  | @tail k l _ hkl ih =>
    have hle := h k l hkl
    cases hl : y l with
    | none => exact absurd hl (hall l)
    | some b =>
      rw [hl, ih] at hle
      rw [hle.eq_some htop]

/-! ## Giving up what is missing -/

/-- Missing facts are given up. -/
def settle (top : α) (x : ι → Option α) : ι → Option α := fun i => some ((x i).getD top)

/-- The facts that follow from `x`: the least closed ones, after which the
missing ones are given up and the loss is passed on. -/
def Resolves (top : α) (edge : ι → ι → Prop) (x y : ι → Option α) : Prop :=
  ∃ m, Least top edge x m ∧ Least top edge (settle top m) y

namespace Resolves

theorem unique (h : Resolves top edge x y) (h' : Resolves top edge x z) : y = z := by
  obtain ⟨m, hm, hy⟩ := h
  obtain ⟨m', hm', hz⟩ := h'
  obtain rfl := hm.unique hm'
  exact hy.unique hz

theorem rename {edge' : κ → κ → Prop} (σ : ι ≃ κ) (hedge : ∀ i j, edge' (σ i) (σ j) ↔ edge i j)
    (h : Resolves top edge x y) : Resolves top edge' (x ∘ σ.symm) (y ∘ σ.symm) := by
  obtain ⟨m, hm, hy⟩ := h
  exact ⟨m ∘ σ.symm, hm.rename σ hedge, hy.rename σ hedge⟩

variable (h : Resolves top edge x y)

include h

theorem closed : Closed top edge y := by
  obtain ⟨_, _, hy⟩ := h
  exact hy.closed

theorem ne_none (i : ι) : y i ≠ none := by
  obtain ⟨m, _, hy⟩ := h
  intro hnone
  have hle := hy.above i
  rw [hnone] at hle
  rcases hle with h | h | h <;> cases h

/-- An unknown without edges keeps its fact, unless it is missing. -/
theorem eq_of_no_edge {i : ι} (hi : ∀ j, ¬ edge i j) :
    y i = some ((x i).getD top) := by
  obtain ⟨m, hm, hy⟩ := h
  rw [hy.eq_of_no_edge hi, settle, hm.eq_of_no_edge hi]

theorem reaches {i j : ι} {a : α} (ha : y i = some a) (htop : a ≠ top)
    (hij : Relation.ReflTransGen edge i j) : y j = some a :=
  h.closed.reaches h.ne_none ha htop hij

/-- A definite fact has a seed. -/
theorem seeded {i : ι} {a : α} (ha : y i = some a) (htop : a ≠ top) :
    ∃ j, Relation.ReflTransGen edge i j ∧ x j = some a := by
  obtain ⟨m, hm, hy⟩ := h
  have hle : Below top (some ((m i).getD top)) (some a) := ha ▸ hy.above i
  have heq : (m i).getD top = a := hle.eq_some htop
  cases hmi : m i with
  | none =>
    rw [hmi] at heq
    exact absurd heq.symm htop
  | some b =>
    rw [hmi] at heq
    exact hm.seeded (hmi.trans (congrArg some heq)) htop

end Resolves

end Flat

end QuickJit
