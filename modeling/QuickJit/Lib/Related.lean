import Mathlib

/-
  Lists related position by position.

  A pass that turns a list into another one of the same shape is described by
  `List.Forall₂`: what stands at a position of one list is related to what
  stands there in the other. The lemmas here go between that, positions and
  members, and picking values by position (`forall₂_pick`).
-/

namespace QuickJit

universe u v w

variable {α : Type u} {β : Type v}

theorem forall₂_mem_left {R : α → β → Prop} {l : List α} {l' : List β} (h : List.Forall₂ R l l')
    {a : α} (ha : a ∈ l) : ∃ b ∈ l', R a b := by
  induction h with
  | nil => cases ha
  | cons hab _ ih =>
    rcases List.mem_cons.mp ha with rfl | ha
    · exact ⟨_, List.mem_cons_self, hab⟩
    · obtain ⟨b, hb, hR⟩ := ih ha
      exact ⟨b, List.mem_cons_of_mem _ hb, hR⟩

theorem forall₂_mem_right {R : α → β → Prop} {l : List α} {l' : List β} (h : List.Forall₂ R l l')
    {b : β} (hb : b ∈ l') : ∃ a ∈ l, R a b :=
  forall₂_mem_left (R := fun b a => R a b) h.flip hb

theorem forall₂_trans {γ : Type w} {R : α → β → Prop} {S : β → γ → Prop} {l : List α} {l' : List β}
    {l'' : List γ} (h : List.Forall₂ R l l') (h' : List.Forall₂ S l' l'') :
    List.Forall₂ (fun a c => ∃ b, R a b ∧ S b c) l l'' := by
  induction h generalizing l'' with
  | nil => cases h'; exact .nil
  | cons hab _ ih =>
    cases h' with
    | cons hbc hrest => exact .cons ⟨_, hab, hbc⟩ (ih hrest)

/-- Related lists are related at every position. -/
theorem forall₂_get {R : α → β → Prop} {l : List α} {l' : List β} (h : List.Forall₂ R l l')
    {k : Nat} {a : α} {b : β} (ha : l[k]? = some a) (hb : l'[k]? = some b) : R a b := by
  obtain ⟨hk, rfl⟩ := List.getElem?_eq_some_iff.mp ha
  obtain ⟨hk', rfl⟩ := List.getElem?_eq_some_iff.mp hb
  exact h.get hk hk'

theorem forall₂_of_get {R : α → β → Prop} {l : List α} {l' : List β} (hlen : l.length = l'.length)
    (h : ∀ {k : Nat} {a b}, l[k]? = some a → l'[k]? = some b → R a b) : List.Forall₂ R l l' :=
  List.forall₂_of_length_eq_of_get hlen fun _ hk hk' =>
    h (List.getElem?_eq_getElem hk) (List.getElem?_eq_getElem hk')

/-- The last values of related lists. -/
theorem forall₂_last {R : α → β → Prop} {l : List α} {l' : List β} (h : List.Forall₂ R l l') {a : α}
    (ha : l.getLast? = some a) :
    ∃ b, l'.getLast? = some b ∧ R a b := by
  rw [List.getLast?_eq_getElem?] at ha ⊢
  have hlt : l.length - 1 < l'.length := by
    rw [← h.length_eq]
    exact (List.getElem?_eq_some_iff.mp ha).1
  rw [← h.length_eq]
  exact ⟨_, List.getElem?_eq_getElem hlt, forall₂_get h ha (List.getElem?_eq_getElem hlt)⟩

/-- Values picked from related lists by position are related. -/
theorem forall₂_pick {R : α → β → Prop} {l : List α} {l' : List β} (h : List.Forall₂ R l l') :
    ∀ {order : List Nat} {values : List α},
      values.map some = order.map (fun k => l[k]?) →
        List.Forall₂ R values (order.filterMap fun k => l'[k]?)
  | [], values, hv => by
    rw [List.map_nil, List.map_eq_nil_iff] at hv
    rw [hv]
    exact .nil
  | k :: order, [], hv => by cases hv
  | k :: order, v :: values, hv => by
    rw [List.map_cons, List.map_cons, List.cons.injEq] at hv
    have hlt : k < l'.length := by
      rw [← h.length_eq]
      exact (List.getElem?_eq_some_iff.mp hv.1.symm).1
    rw [List.filterMap_cons_some (List.getElem?_eq_getElem hlt)]
    exact .cons (forall₂_get h hv.1.symm (List.getElem?_eq_getElem hlt)) (forall₂_pick h hv.2)

end QuickJit
