import QuickJit.Lib.OrdMap

/-
  Maps whose entries are accumulated from events.

  `Tracks R m events` says that a key has an entry exactly if it has events, and
  that the entry is what `R` says of them. Adding an event to one key
  (`Tracks.upsert`), an event that was there already (`Tracks.congr`) and
  dropping some of the keys (`Tracks.retain`) keep it, so each kind of entry is
  reasoned about by its first entry and its step alone.
-/

namespace QuickJit

open OrdMap

universe u v w

variable {κ : Type u} {α : Type v} {ε : Type w} [LinearOrder κ]

/-- Sorted lists of the same elements are the same. -/
theorem eq_of_sorted {l l' : List κ} (hl : l.Pairwise (· < ·)) (hl' : l'.Pairwise (· < ·))
    (hmem : ∀ k, k ∈ l ↔ k ∈ l') : l = l' := by
  refine List.Perm.eq_of_pairwise (fun a b _ _ hab hba => absurd hab (lt_asymm hba)) hl hl' ?_
  exact (List.perm_ext_iff_of_nodup (hl.imp fun h => ne_of_lt h)
    (hl'.imp fun h => ne_of_lt h)).mpr hmem

/-- Lists with the same keys correspond, element by element. -/
theorem forall₂_of_keys {ι : Type*} {β γ : Type*} {key : β → ι} {key' : γ → ι} {S : β → γ → Prop}
    {l : List β} {l' : List γ} (hkeys : l.map key = l'.map key')
    (hS : ∀ b ∈ l, ∀ c ∈ l', key b = key' c → S b c) : List.Forall₂ S l l' := by
  have hlength : l.length = l'.length := by simpa using congrArg List.length hkeys
  refine List.forall₂_iff_get.mpr ⟨hlength, fun i hi hi' => ?_⟩
  refine hS _ (List.get_mem _ _) _ (List.get_mem _ _) ?_
  have hget := congrArg (fun keys => keys[i]?) hkeys
  simpa [hi, hi'] using hget

namespace OrdMap

/-- Keep the entries of some keys. -/
def retain (m : OrdMap κ α) (keep : κ → Bool) : OrdMap κ α :=
  ⟨m.entries.filter fun e => keep e.1, m.sorted.filter _⟩

theorem lookup_filter_key (keep : κ → Bool) (k : κ) :
    ∀ l : List (κ × α), lookup k (l.filter fun e => keep e.1) = if keep k then lookup k l else none
  | [] => by simp [lookup]
  | (k', a) :: rest => by
    have ih := lookup_filter_key keep k rest
    by_cases hk : k' = k
    · subst hk
      by_cases hkeep : keep k' = true
      · simp [hkeep, lookup]
      · simp [hkeep] at ih
        simp [hkeep, ih]
    · by_cases hkeep : keep k' = true
      · simp [hkeep, lookup, hk, ih]
      · simp [hkeep, lookup, hk, ih]

theorem get?_retain (m : OrdMap κ α) (keep : κ → Bool) (k : κ) :
    (m.retain keep).get? k = if keep k then m.get? k else none :=
  lookup_filter_key keep k m.entries

/-- Maps are determined by their lookups, entry by entry. -/
theorem forall₂_entries {β : Type*} {R : α → β → Prop} {m : OrdMap κ α} {m' : OrdMap κ β}
    (h : ∀ k, Option.Rel R (m.get? k) (m'.get? k)) :
    List.Forall₂ (fun e e' => e.1 = e'.1 ∧ R e.2 e'.2) m.entries m'.entries := by
  have hkeys : m.keys = m'.keys := by
    refine eq_of_sorted m.keys_sorted m'.keys_sorted fun k => ?_
    rw [mem_keys, mem_keys]
    have hk := h k
    cases hm : m.get? k <;> cases hm' : m'.get? k <;> rw [hm, hm'] at hk <;> cases hk <;> simp
  refine forall₂_of_keys hkeys fun e he e' he' hkey => ⟨hkey, ?_⟩
  have hrel := h e.1
  rw [mem_entries.mp he, hkey, mem_entries.mp he'] at hrel
  cases hrel with
  | some hR => exact hR

theorem ext_get? {m m' : OrdMap κ α} (h : ∀ k, m.get? k = m'.get? k) : m = m' := by
  have hentries : m.entries = m'.entries := by
    have hrel : ∀ k, Option.Rel Eq (m.get? k) (m'.get? k) := by
      intro k
      rw [h k]
      cases m'.get? k with
      | none => exact .none
      | some a => exact .some rfl
    refine List.forall₂_eq_eq_eq ▸ (forall₂_entries hrel).imp fun e e' he => ?_
    exact Prod.ext he.1 he.2
  cases m
  cases m'
  cases hentries
  rfl

theorem insert_eq_self {m : OrdMap κ α} {k : κ} {a : α} :
    m.insert k a = m ↔ m.get? k = some a := by
  refine ⟨fun h => h ▸ get?_insert_self m k a, fun h => ext_get? fun k' => ?_⟩
  by_cases hk : k = k'
  · subst hk
    rw [get?_insert_self, h]
  · rw [get?_insert_ne m a hk]

/-- A view of the entries that shows their keys and tells them apart determines
the map. -/
theorem eq_of_view {β : Type*} {m m' : OrdMap κ α} (view : κ → α → β) (key : β → κ)
    (hkey : ∀ k a, key (view k a) = k)
    (hview : m.entries.map (fun e => view e.1 e.2) = m'.entries.map fun e => view e.1 e.2)
    (hinj : ∀ k a a', m.get? k = some a → m'.get? k = some a' → view k a = view k a' → a = a') :
    m = m' := by
  have hsub : ∀ {m₁ m₂ : OrdMap κ α} {k : κ} {a : α},
      m₁.entries.map (fun e => view e.1 e.2) = m₂.entries.map (fun e => view e.1 e.2) →
      m₁.get? k = some a → ∃ a', m₂.get? k = some a' ∧ view k a' = view k a := by
    intro m₁ m₂ k a heq hget
    have hmem : view k a ∈ m₂.entries.map fun e => view e.1 e.2 :=
      heq ▸ List.mem_map.mpr ⟨(k, a), mem_entries.mpr hget, rfl⟩
    obtain ⟨⟨k', a'⟩, hmem', hsame⟩ := List.mem_map.mp hmem
    have hk : k' = k := by rw [← hkey k' a', ← hkey k a]; exact congrArg key hsame
    subst hk
    exact ⟨a', mem_entries.mp hmem', hsame⟩
  refine ext_get? fun k => ?_
  cases hget : m.get? k with
  | some a =>
    obtain ⟨a', hget', hsame⟩ := hsub hview hget
    rw [hget', hinj k a a' hget hget' hsame.symm]
  | none =>
    cases hget' : m'.get? k with
    | none => rfl
    | some a' =>
      obtain ⟨a, hget'', -⟩ := hsub hview.symm hget'
      rw [hget] at hget''
      cases hget''

end OrdMap

/-- The entries of a map are what `R` makes of the events of their keys. -/
structure Tracks (R : List ε → α → Prop) (m : OrdMap κ α) (events : κ → List ε) : Prop where
  absent : ∀ k, events k = [] → m.get? k = none
  present : ∀ k, events k ≠ [] → ∃ a, m.get? k = some a ∧ R (events k) a

namespace Tracks

variable {R : List ε → α → Prop} {m : OrdMap κ α} {events : κ → List ε}

theorem empty (R : List ε → α → Prop) : Tracks R (OrdMap.empty : OrdMap κ α) fun _ => [] :=
  ⟨fun _ _ => rfl, fun _ h => absurd rfl h⟩

variable (h : Tracks R m events)

include h

theorem mem {k : κ} {a : α} (hk : m.get? k = some a) :
    events k ≠ [] ∧ R (events k) a := by
  have hne : events k ≠ [] := by
    intro hnil
    rw [h.absent k hnil] at hk
    cases hk
  obtain ⟨b, hb, hR⟩ := h.present k hne
  cases hk.symm.trans hb
  exact ⟨hne, hR⟩

/-- One more event for `k`. -/
theorem upsert {events' : κ → List ε} {k : κ} {e : ε} {a : α}
    (hother : ∀ j, j ≠ k → events' j = events j) (hk : events' k = e :: events k)
    (hnew : m.get? k = none → R [e] a)
    (hold : ∀ b, m.get? k = some b → R (events k) b → R (e :: events k) a) :
    Tracks R (m.insert k a) events' := by
  have hR : R (e :: events k) a := by
    by_cases hnil : events k = []
    · rw [hnil]
      exact hnew (h.absent k hnil)
    · obtain ⟨b, hb, hRb⟩ := h.present k hnil
      exact hold b hb hRb
  refine ⟨fun j hj => ?_, fun j hj => ?_⟩
  · have hne : j ≠ k := by
      rintro rfl
      simp [hk] at hj
    rw [get?_insert_ne m a hne.symm]
    exact h.absent j (hother j hne ▸ hj)
  · by_cases hjk : j = k
    · subst hjk
      exact ⟨a, get?_insert_self _ _ _, hk ▸ hR⟩
    · rw [get?_insert_ne m a (Ne.symm hjk), hother j hjk]
      exact h.present j (hother j hjk ▸ hj)

/-- The same, where the entry that is found or made is updated. -/
theorem observe {events' : κ → List ε} {k : κ} {e : ε} (init : α) (update : α → α)
    (hother : ∀ j, j ≠ k → events' j = events j) (hk : events' k = e :: events k)
    (hnew : R [e] (update init))
    (hold : ∀ b, events k ≠ [] → R (events k) b → R (e :: events k) (update b)) :
    Tracks R (m.insert k (update ((m.get? k).getD init))) events' := by
  refine h.upsert hother hk (fun hget => ?_) fun b hget hb => ?_
  · rw [hget]
    exact hnew
  · rw [hget]
    exact hold b (h.mem hget).1 hb

/-- Events that are the same sets, key by key. -/
theorem congr {events' : κ → List ε} (hset : ∀ k e, e ∈ events k ↔ e ∈ events' k)
    (hR : ∀ k a, R (events k) a → R (events' k) a) : Tracks R m events' := by
  have hnil : ∀ k, events k = [] ↔ events' k = [] := by
    intro k
    simp only [List.eq_nil_iff_forall_not_mem, hset]
  refine ⟨fun k hk => h.absent k ((hnil k).mpr hk), fun k hk => ?_⟩
  obtain ⟨a, ha, hRa⟩ := h.present k (mt (hnil k).mp hk)
  exact ⟨a, ha, hR k a hRa⟩

/-- The events of one key are forgotten. -/
theorem erase {events' : κ → List ε} {k : κ} (hother : ∀ j, j ≠ k → events' j = events j)
    (hk : events' k = []) :
    Tracks R (m.erase k) events' := by
  refine ⟨fun j hj => ?_, fun j hj => ?_⟩
  · rw [get?_erase]
    split
    case isTrue => rfl
    case isFalse hne =>
      rw [hother j (Ne.symm hne)] at hj
      exact h.absent j hj
  · have hne : j ≠ k := by
      rintro rfl
      exact hj hk
    rw [get?_erase, if_neg (Ne.symm hne), hother j hne]
    exact h.present j (hother j hne ▸ hj)

/-- The events of the keys that are not kept are forgotten. -/
theorem retain {events' : κ → List ε} (keep : κ → Bool)
    (hkeep : ∀ k, events' k = if keep k then events k else []) :
    Tracks R (m.retain keep) events' := by
  refine ⟨fun k hk => ?_, fun k hk => ?_⟩
  · rw [get?_retain]
    rw [hkeep k] at hk
    split
    case isTrue hkept => exact h.absent k (by simpa [hkept] using hk)
    case isFalse => rfl
  · rw [hkeep k] at hk
    cases hkept : keep k with
    | false => simp [hkept] at hk
    | true =>
      obtain ⟨a, ha, hR⟩ := h.present k (by simpa [hkept] using hk)
      exact ⟨a, by rw [get?_retain, hkept, if_pos rfl, ha], by rw [hkeep k, hkept]; exact hR⟩

/-- There are as many entries as keys with events. -/
theorem length_eq {keys : Finset κ} (hkeys : ∀ k, k ∈ keys ↔ events k ≠ []) :
    m.entries.length = keys.card := by
  have hset : m.keys.toFinset = keys := by
    ext k
    rw [List.mem_toFinset, mem_keys, hkeys k]
    refine ⟨fun hk => ?_, fun hne => ?_⟩
    · obtain ⟨a, ha⟩ := hk
      exact (h.mem ha).1
    · obtain ⟨a, ha, -⟩ := h.present k hne
      exact ⟨a, ha⟩
  rw [← hset, List.toFinset_card_of_nodup (m.keys_sorted.imp fun hlt => ne_of_lt hlt)]
  simp [OrdMap.keys]

end Tracks

end QuickJit
