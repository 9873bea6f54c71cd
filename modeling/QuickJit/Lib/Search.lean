import Mathlib
import QuickJit.Lib.OrdMap

/-
  Breadth-first search with an action on each visited key.

  The search keeps a queue and the set of visited keys. A key taken from the
  queue is skipped when it was visited before; otherwise it is visited and its
  successors join the queue. The visited keys are exactly those reachable from
  the queue (`search_reachable`, `search_closed`), provided the fuel covers the
  queue and the successors still to come (`pending`); the queue is then empty
  (`search_done`).
-/

namespace QuickJit

open OrdSet

universe u v

section

variable {κ : Type u} {σ : Type v} [LinearOrder κ] (next : κ → List κ) (visit : σ → κ → σ)

/-- The state and the visited keys when the queue is empty. -/
def search : Nat → List κ → σ → OrdSet κ → σ × OrdSet κ
  | 0, _, s, seen => (s, seen)
  | _ + 1, [], s, seen => (s, seen)
  | fuel + 1, k :: queue, s, seen =>
    if k ∈ seen then search fuel queue s seen
    else search fuel (queue ++ next k) (visit s k) (seen.insert k)

/-- The rule of an invariant of the state and the visited keys. -/
theorem search_inv {P : σ → OrdSet κ → Prop}
    (hvisit : ∀ s seen k, k ∉ seen → P s seen → P (visit s k) (seen.insert k)) :
    ∀ (fuel : Nat) (queue : List κ) {s : σ} {seen : OrdSet κ}, P s seen →
      P (search next visit fuel queue s seen).1 (search next visit fuel queue s seen).2
  | 0, _, _, _, h => h
  | _ + 1, [], _, _, h => h
  | fuel + 1, k :: queue, s, seen, h => by
    unfold search
    split
    case isTrue => exact search_inv hvisit fuel queue h
    case isFalse hk => exact search_inv hvisit fuel _ (hvisit s seen k hk h)

/-- Every visited key was visited before or is reachable from the queue. -/
theorem search_reachable {x : κ} :
    ∀ (fuel : Nat) (queue : List κ) (s : σ) (seen : OrdSet κ),
      x ∈ (search next visit fuel queue s seen).2 →
        x ∈ seen ∨ ∃ k ∈ queue, Relation.ReflTransGen (fun a b => b ∈ next a) k x
  | 0, _, _, _, h => .inl h
  | _ + 1, [], _, _, h => .inl h
  | fuel + 1, k :: queue, s, seen, h => by
    unfold search at h
    split at h
    case isTrue =>
      refine (search_reachable fuel queue s seen h).imp_right ?_
      rintro ⟨k', hk', hreach⟩
      exact ⟨k', List.mem_cons_of_mem _ hk', hreach⟩
    case isFalse =>
      rcases search_reachable fuel _ _ _ h with hseen | ⟨k', hk', hreach⟩
      · rcases mem_insert.mp hseen with rfl | hseen
        · exact .inr ⟨x, List.mem_cons_self, .refl⟩
        · exact .inl hseen
      · rcases List.mem_append.mp hk' with hk' | hk'
        · exact .inr ⟨k', List.mem_cons_of_mem _ hk', hreach⟩
        · exact .inr ⟨k, List.mem_cons_self, hreach.head hk'⟩

/-- The turns that are left: the queue, and what the keys of `keys` that are not
visited yet will add to it. -/
def pending (keys : List κ) (queue : List κ) (seen : OrdSet κ) : Nat :=
  queue.length + ((keys.filter (· ∉ seen)).map fun k => (next k).length).sum

omit σ visit in
theorem sum_filter_insert (g : κ → Nat) {k : κ} {seen : OrdSet κ} (hk : k ∉ seen) :
    ∀ {keys : List κ}, keys.Nodup → k ∈ keys →
      ((keys.filter (· ∉ seen)).map g).sum =
        g k + ((keys.filter (· ∉ seen.insert k)).map g).sum
  | x :: rest, hnodup, hmem => by
    obtain ⟨hx, hrest⟩ := List.nodup_cons.mp hnodup
    by_cases hxk : x = k
    · subst hxk
      have hsame : rest.filter (· ∉ seen.insert x) = rest.filter (· ∉ seen) :=
        List.filter_congr fun y hy => by
          have : y ≠ x := fun h => hx (h ▸ hy)
          simp [this]
      rw [List.filter_cons_of_pos (by simpa using hk), List.filter_cons_of_neg (by simp), hsame]
      simp
    · have hrec := sum_filter_insert g hk hrest ((List.mem_cons.mp hmem).resolve_left (Ne.symm hxk))
      by_cases hseen : x ∈ seen
      · rw [List.filter_cons_of_neg (by simpa using hseen),
          List.filter_cons_of_neg (by simp [hseen]), hrec]
      · rw [List.filter_cons_of_pos (by simpa using hseen),
          List.filter_cons_of_pos (by simp [hseen, hxk])]
        simp only [List.map_cons, List.sum_cons, hrec]
        omega

omit σ visit in
/-- Visiting a key takes it from the queue; its successors were counted. -/
theorem pending_visit {keys : List κ} (hnodup : keys.Nodup) (hkeys : ∀ k, k ∉ keys → next k = [])
    {k : κ} (queue : List κ) {seen : OrdSet κ} (hk : k ∉ seen) :
    pending next keys (queue ++ next k) (seen.insert k) + 1 ≤ pending next keys (k :: queue) seen := by
  unfold pending
  rw [List.length_append, List.length_cons]
  by_cases hmem : k ∈ keys
  · have hsum := sum_filter_insert (fun k => (next k).length) hk hnodup hmem
    omega
  · have hsame : keys.filter (· ∉ seen.insert k) = keys.filter (· ∉ seen) :=
      List.filter_congr fun y hy => by
        have : y ≠ k := fun h => hmem (h ▸ hy)
        simp [this]
    rw [hkeys k hmem, hsame]
    simp only [List.length_nil]
    omega

def queueAfter : Nat → List κ → OrdSet κ → List κ
  | 0, queue, _ => queue
  | _ + 1, [], _ => []
  | turns + 1, k :: queue, seen =>
    if k ∈ seen then queueAfter turns queue seen
    else queueAfter turns (queue ++ next k) (seen.insert k)

omit σ visit in
theorem search_done {keys : List κ} (hnodup : keys.Nodup) (hkeys : ∀ k, k ∉ keys → next k = []) :
    ∀ (turns : Nat) (queue : List κ) (seen : OrdSet κ), pending next keys queue seen ≤ turns →
      queueAfter next turns queue seen = []
  | 0, queue, seen, hturns => by
    unfold pending at hturns
    unfold queueAfter
    exact List.length_eq_zero_iff.mp (by omega)
  | _ + 1, [], _, _ => rfl
  | turns + 1, k :: queue, seen, hturns => by
    unfold queueAfter
    split
    case isTrue =>
      refine search_done hnodup hkeys turns queue seen ?_
      unfold pending at hturns ⊢
      rw [List.length_cons] at hturns
      omega
    case isFalse hk =>
      have hless := pending_visit next hnodup hkeys queue hk
      exact search_done hnodup hkeys turns _ _ (by omega)

/-- With enough fuel the visited keys include the queue and are closed under
successors, if the earlier ones were up to the queue. -/
theorem search_closed {keys : List κ} (hnodup : keys.Nodup) (hkeys : ∀ k, k ∉ keys → next k = []) :
    ∀ (fuel : Nat) (queue : List κ) (s : σ) (seen : OrdSet κ),
      pending next keys queue seen ≤ fuel →
      (∀ a ∈ seen, ∀ b ∈ next a, b ∈ seen ∨ b ∈ queue) →
      (∀ x, x ∈ seen ∨ x ∈ queue → x ∈ (search next visit fuel queue s seen).2) ∧
        ∀ a ∈ (search next visit fuel queue s seen).2, ∀ b ∈ next a,
          b ∈ (search next visit fuel queue s seen).2
  | 0, queue, s, seen, hfuel, hclosed => by
    have hempty : queue = [] := by
      unfold pending at hfuel
      exact List.length_eq_zero_iff.mp (by omega)
    subst hempty
    simpa [search] using hclosed
  | fuel + 1, [], s, seen, _, hclosed => by simpa [search] using hclosed
  | fuel + 1, k :: queue, s, seen, hfuel, hclosed => by
    unfold search
    split
    case isTrue hk =>
      have hless : pending next keys queue seen ≤ fuel := by
        unfold pending at hfuel ⊢
        rw [List.length_cons] at hfuel
        omega
      obtain ⟨hall, hresult⟩ := search_closed hnodup hkeys fuel queue s seen hless
        fun a ha b hb => by
          rcases hclosed a ha b hb with h | h
          · exact .inl h
          · rcases List.mem_cons.mp h with rfl | h
            · exact .inl hk
            · exact .inr h
      refine ⟨fun x hx => hall x ?_, hresult⟩
      rcases hx with hx | hx
      · exact .inl hx
      · rcases List.mem_cons.mp hx with rfl | hx
        · exact .inl hk
        · exact .inr hx
    case isFalse hk =>
      have hless := pending_visit next hnodup hkeys queue hk
      obtain ⟨hall, hresult⟩ := search_closed hnodup hkeys fuel (queue ++ next k) (visit s k)
        (seen.insert k) (by omega) fun a ha b hb => by
          rcases mem_insert.mp ha with rfl | ha
          · exact .inr (List.mem_append_right _ hb)
          · rcases hclosed a ha b hb with h | h
            · exact .inl (mem_insert.mpr (.inr h))
            · rcases List.mem_cons.mp h with rfl | h
              · exact .inl (mem_insert.mpr (.inl rfl))
              · exact .inr (List.mem_append_left _ h)
      refine ⟨fun x hx => hall x ?_, hresult⟩
      rcases hx with hx | hx
      · exact .inl (mem_insert.mpr (.inr hx))
      · rcases List.mem_cons.mp hx with rfl | hx
        · exact .inl (mem_insert.mpr (.inl rfl))
        · exact .inr (List.mem_append_left _ hx)

end

end QuickJit
