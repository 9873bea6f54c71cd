import Mathlib

/-
  Maps and sets ordered by key, as `BTreeMap` and `BTreeSet` are.

  A map is the list of its entries in increasing key order, a set the list of
  its elements; the order is a field, so a list with a repeated or misplaced
  key is not a map. Everything a program can observe through lookups is given
  by `get?_empty` and `get?_insert`, everything it can observe by iterating by
  `mem_entries` and the `sorted` field.
-/

namespace QuickJit

universe u v

/-- A map with keys in increasing order. -/
structure OrdMap (κ : Type u) (α : Type v) [LinearOrder κ] where
  entries : List (κ × α)
  sorted : entries.Pairwise (fun a b => a.1 < b.1)

namespace OrdMap

variable {κ : Type u} {α : Type v} [LinearOrder κ]

instance [DecidableEq α] : DecidableEq (OrdMap κ α) := fun a b =>
  decidable_of_iff (a.entries = b.entries) (by cases a; cases b; simp)

/-- The map without entries. -/
def empty : OrdMap κ α := ⟨[], List.Pairwise.nil⟩

/-- The value under a key of an entry list. -/
def lookup (k : κ) : List (κ × α) → Option α
  | [] => none
  | (k', a) :: rest => if k' = k then some a else lookup k rest

/-- The value under a key. -/
def get? (m : OrdMap κ α) (k : κ) : Option α := lookup k m.entries

/-- Whether a key has an entry. -/
def contains (m : OrdMap κ α) (k : κ) : Bool := (m.get? k).isSome

/-- The keys, in increasing order. -/
def keys (m : OrdMap κ α) : List κ := m.entries.map Prod.fst

/-- The values, in key order. -/
def values (m : OrdMap κ α) : List α := m.entries.map Prod.snd

/-- The entry list with one key set. -/
def insertEntry (k : κ) (a : α) : List (κ × α) → List (κ × α)
  | [] => [(k, a)]
  | (k', b) :: rest =>
    if k < k' then (k, a) :: (k', b) :: rest
    else if k = k' then (k, a) :: rest
    else (k', b) :: insertEntry k a rest

theorem mem_insertEntry {k : κ} {a : α} {e : κ × α} :
    ∀ {l : List (κ × α)}, e ∈ insertEntry k a l → e = (k, a) ∨ e ∈ l
  | [], h => by simpa [insertEntry] using h
  | (k', b) :: rest, h => by
    unfold insertEntry at h
    split at h
    · simpa using h
    · split at h
      · rcases List.mem_cons.mp h with h | h
        · exact .inl h
        · exact .inr (List.mem_cons_of_mem _ h)
      · rcases List.mem_cons.mp h with h | h
        · exact .inr (h ▸ List.mem_cons_self)
        · exact (mem_insertEntry h).imp_right (List.mem_cons_of_mem _)

theorem insertEntry_sorted (k : κ) (a : α) :
    ∀ {l : List (κ × α)}, l.Pairwise (fun a b => a.1 < b.1) →
      (insertEntry k a l).Pairwise (fun a b => a.1 < b.1)
  | [], _ => by simp [insertEntry]
  | (k', b) :: rest, h => by
    obtain ⟨hhead, htail⟩ := List.pairwise_cons.mp h
    unfold insertEntry
    split
    case isTrue hlt =>
      refine List.pairwise_cons.mpr ⟨fun e he => ?_, h⟩
      rcases List.mem_cons.mp he with rfl | he
      · exact hlt
      · exact lt_trans hlt (hhead e he)
    case isFalse hlt =>
      split
      case isTrue heq =>
        subst heq
        exact List.pairwise_cons.mpr ⟨hhead, htail⟩
      case isFalse hne =>
        refine List.pairwise_cons.mpr ⟨fun e he => ?_, insertEntry_sorted k a htail⟩
        rcases mem_insertEntry he with rfl | he
        · exact lt_of_le_of_ne (not_lt.mp hlt) (Ne.symm hne)
        · exact hhead e he

/-- The map with one key set. -/
def insert (m : OrdMap κ α) (k : κ) (a : α) : OrdMap κ α :=
  ⟨insertEntry k a m.entries, insertEntry_sorted k a m.sorted⟩

/-- The map without one key. -/
def erase (m : OrdMap κ α) (k : κ) : OrdMap κ α :=
  ⟨m.entries.filter fun e => e.1 ≠ k, m.sorted.filter _⟩

/-- The map with the value under a key changed, if there is one. -/
def modify (m : OrdMap κ α) (k : κ) (f : α → α) : OrdMap κ α :=
  match m.get? k with
  | some a => m.insert k (f a)
  | none => m

def mapValues (m : OrdMap κ α) (f : α → α) : OrdMap κ α :=
  ⟨m.entries.map fun e => (e.1, f e.2), List.pairwise_map.mpr m.sorted⟩

/-- The map of an entry list; later entries replace earlier ones. -/
def ofList (l : List (κ × α)) : OrdMap κ α :=
  l.foldl (fun m e => m.insert e.1 e.2) empty

@[simp] theorem get?_empty (k : κ) : (empty : OrdMap κ α).get? k = none := rfl

theorem lookup_insertEntry (k k' : κ) (a : α) :
    ∀ l : List (κ × α),
      lookup k' (insertEntry k a l) = if k = k' then some a else lookup k' l
  | [] => by simp [insertEntry, lookup]
  | (k₁, b) :: rest => by
    unfold insertEntry
    split
    · simp [lookup]
    · split
      case isTrue heq =>
        subst heq
        by_cases hk : k = k' <;> simp [lookup, hk]
      case isFalse hne =>
        by_cases hk : k₁ = k'
        · have : k ≠ k' := fun h => hne (h.trans hk.symm)
          simp [lookup, hk, this]
        · simp [lookup, hk, lookup_insertEntry k k' a rest]

theorem get?_insert (m : OrdMap κ α) (k k' : κ) (a : α) :
    (m.insert k a).get? k' = if k = k' then some a else m.get? k' :=
  lookup_insertEntry k k' a m.entries

@[simp] theorem get?_insert_self (m : OrdMap κ α) (k : κ) (a : α) :
    (m.insert k a).get? k = some a := by simp [get?_insert]

theorem get?_insert_ne (m : OrdMap κ α) {k k' : κ} (a : α) (h : k ≠ k') :
    (m.insert k a).get? k' = m.get? k' := by simp [get?_insert, h]

theorem get?_insert_cases {m : OrdMap κ α} {k k' : κ} {a b : α}
    (h : (m.insert k a).get? k' = some b) : k' = k ∧ b = a ∨ m.get? k' = some b := by
  rw [get?_insert] at h
  split at h
  case isTrue heq => exact .inl ⟨heq.symm, (Option.some.inj h).symm⟩
  case isFalse => exact .inr h

theorem get?_modify (m : OrdMap κ α) (k k' : κ) (f : α → α) :
    (m.modify k f).get? k' = if k = k' then (m.get? k').map f else m.get? k' := by
  unfold modify
  split
  case h_1 a ha =>
    rw [get?_insert]
    by_cases hk : k = k'
    · subst hk
      simp [ha]
    · simp [hk]
  case h_2 hnone =>
    by_cases hk : k = k'
    · subst hk
      simp [hnone]
    · simp [hk]

theorem mem_of_lookup {k : κ} {a : α} :
    ∀ {l : List (κ × α)}, lookup k l = some a → (k, a) ∈ l
  | (k', b) :: rest, h => by
    unfold lookup at h
    split at h
    · simp_all
    · exact List.mem_cons_of_mem _ (mem_of_lookup h)

theorem lookup_of_mem {k : κ} {a : α} :
    ∀ {l : List (κ × α)}, l.Pairwise (fun a b => a.1 < b.1) → (k, a) ∈ l →
      lookup k l = some a
  | (k', b) :: rest, hs, h => by
    obtain ⟨hhead, htail⟩ := List.pairwise_cons.mp hs
    rcases List.mem_cons.mp h with h | h
    · cases h
      simp [lookup]
    · have hne : k' ≠ k := ne_of_lt (hhead _ h)
      simp [lookup, hne, lookup_of_mem htail h]

theorem mem_entries {m : OrdMap κ α} {k : κ} {a : α} :
    (k, a) ∈ m.entries ↔ m.get? k = some a :=
  ⟨lookup_of_mem m.sorted, mem_of_lookup⟩

theorem mem_keys {m : OrdMap κ α} {k : κ} : k ∈ m.keys ↔ ∃ a, m.get? k = some a := by
  simp [keys, mem_entries]

theorem contains_iff {m : OrdMap κ α} {k : κ} :
    m.contains k = true ↔ ∃ a, m.get? k = some a := Option.isSome_iff_exists

theorem keys_sorted (m : OrdMap κ α) : m.keys.Pairwise (· < ·) :=
  List.pairwise_map.mpr m.sorted

theorem lookup_filter_ne (k k' : κ) :
    ∀ l : List (κ × α),
      lookup k' (l.filter fun e => e.1 ≠ k) = if k = k' then none else lookup k' l
  | [] => by simp [lookup]
  | (k₁, b) :: rest => by
    by_cases hk : k₁ = k
    · subst hk
      rw [List.filter_cons_of_neg (by simp), lookup_filter_ne k₁ k' rest]
      by_cases hk' : k₁ = k' <;> simp [lookup, hk']
    · rw [List.filter_cons_of_pos (by simpa using hk)]
      unfold lookup
      rw [lookup_filter_ne k k' rest]
      by_cases hk' : k₁ = k'
      · have : k ≠ k' := fun h => hk (hk'.trans h.symm)
        simp [hk', this]
      · simp [hk']

theorem get?_erase (m : OrdMap κ α) (k k' : κ) :
    (m.erase k).get? k' = if k = k' then none else m.get? k' :=
  lookup_filter_ne k k' m.entries

@[simp] theorem get?_erase_self (m : OrdMap κ α) (k : κ) : (m.erase k).get? k = none := by
  simp [get?_erase]

theorem get?_erase_ne (m : OrdMap κ α) {k k' : κ} (h : k ≠ k') :
    (m.erase k).get? k' = m.get? k' := by simp [get?_erase, h]

theorem perm_filter_ne {k : κ} {a : α} :
    ∀ {l : List (κ × α)}, l.Pairwise (fun a b => a.1 < b.1) → lookup k l = some a →
      l.Perm ((k, a) :: l.filter fun e => e.1 ≠ k)
  | (k', b) :: rest, hs, h => by
    obtain ⟨hhead, htail⟩ := List.pairwise_cons.mp hs
    unfold lookup at h
    split at h
    case isTrue heq =>
      subst heq
      cases h
      have hrest : rest.filter (fun e => e.1 ≠ k') = rest :=
        List.filter_eq_self.mpr fun e he => by simpa using (ne_of_lt (hhead e he)).symm
      rw [List.filter_cons_of_neg (by simp), hrest]
    case isFalse hne =>
      rw [List.filter_cons_of_pos (by simpa using hne)]
      exact ((perm_filter_ne htail h).cons _).trans (List.Perm.swap ..)

/-- The entries are the erased one and the others. -/
theorem perm_erase {m : OrdMap κ α} {k : κ} {a : α} (h : m.get? k = some a) :
    m.entries.Perm ((k, a) :: (m.erase k).entries) :=
  perm_filter_ne m.sorted h

theorem perm_insertEntry {k : κ} {a : α} :
    ∀ {l : List (κ × α)}, lookup k l = none → (insertEntry k a l).Perm ((k, a) :: l)
  | [], _ => .refl _
  | (k', b) :: rest, h => by
    unfold lookup at h
    split at h
    · cases h
    case isFalse hne =>
    unfold insertEntry
    split
    · exact .refl _
    · rw [if_neg (Ne.symm hne)]
      exact ((perm_insertEntry h).cons _).trans (List.Perm.swap ..)

/-- A new entry and the others. -/
theorem perm_insert {m : OrdMap κ α} {k : κ} (a : α) (h : m.get? k = none) :
    (m.insert k a).entries.Perm ((k, a) :: m.entries) :=
  perm_insertEntry h

theorem get?_foldl_insert {k : κ} {a : α} :
    ∀ {l : List (κ × α)} {m : OrdMap κ α}, (l.map Prod.fst).Nodup →
      ((l.foldl (fun m e => m.insert e.1 e.2) m).get? k = some a ↔
        (k, a) ∈ l ∨ k ∉ l.map Prod.fst ∧ m.get? k = some a)
  | [], m, _ => by simp
  | (k₁, b) :: rest, m, h => by
    obtain ⟨hk₁, hrest⟩ := List.nodup_cons.mp h
    rw [List.foldl_cons, get?_foldl_insert hrest, get?_insert]
    by_cases hk : k₁ = k
    · subst hk
      have hmem : ∀ c, (k₁, c) ∉ rest := fun c hc => hk₁ (List.mem_map.mpr ⟨_, hc, rfl⟩)
      simp [hmem, eq_comm]
    · simp [hk, Ne.symm hk]

/-- The map of a list with distinct keys holds exactly its entries. -/
theorem get?_ofList {l : List (κ × α)} (h : (l.map Prod.fst).Nodup) {k : κ} {a : α} :
    (ofList l).get? k = some a ↔ (k, a) ∈ l := by
  simp [ofList, get?_foldl_insert h]

end OrdMap

/-- A set listed in increasing order. -/
structure OrdSet (κ : Type u) [LinearOrder κ] where
  elems : List κ
  sorted : elems.Pairwise (· < ·)

namespace OrdSet

variable {κ : Type u} [LinearOrder κ]

instance : DecidableEq (OrdSet κ) := fun a b =>
  decidable_of_iff (a.elems = b.elems) (by cases a; cases b; simp)

instance : Membership κ (OrdSet κ) := ⟨fun s k => k ∈ s.elems⟩

instance (s : OrdSet κ) (k : κ) : Decidable (k ∈ s) :=
  inferInstanceAs (Decidable (k ∈ s.elems))

theorem mem_elems {s : OrdSet κ} {k : κ} : k ∈ s.elems ↔ k ∈ s := Iff.rfl

/-- The set without elements. -/
def empty : OrdSet κ := ⟨[], List.Pairwise.nil⟩

@[simp] theorem not_mem_empty (k : κ) : k ∉ (empty : OrdSet κ) := List.not_mem_nil

/-- The list with one element put in its place. -/
def insertElem (k : κ) : List κ → List κ
  | [] => [k]
  | k' :: rest =>
    if k < k' then k :: k' :: rest
    else if k = k' then k' :: rest
    else k' :: insertElem k rest

theorem mem_insertElem {k x : κ} : ∀ {l : List κ}, x ∈ insertElem k l ↔ x = k ∨ x ∈ l
  | [] => by simp [insertElem]
  | k' :: rest => by
    unfold insertElem
    split
    · simp
    · split
      case isTrue heq => subst heq; simp
      case isFalse => simp [mem_insertElem (l := rest), or_left_comm]

theorem insertElem_sorted (k : κ) :
    ∀ {l : List κ}, l.Pairwise (· < ·) → (insertElem k l).Pairwise (· < ·)
  | [], _ => by simp [insertElem]
  | k' :: rest, h => by
    obtain ⟨hhead, htail⟩ := List.pairwise_cons.mp h
    unfold insertElem
    split
    case isTrue hlt =>
      refine List.pairwise_cons.mpr ⟨fun x hx => ?_, h⟩
      rcases List.mem_cons.mp hx with rfl | hx
      · exact hlt
      · exact lt_trans hlt (hhead x hx)
    case isFalse hlt =>
      split
      case isTrue => exact h
      case isFalse hne =>
        refine List.pairwise_cons.mpr ⟨fun x hx => ?_, insertElem_sorted k htail⟩
        rcases mem_insertElem.mp hx with rfl | hx
        · exact lt_of_le_of_ne (not_lt.mp hlt) (Ne.symm hne)
        · exact hhead x hx

/-- The set with one element added. -/
def insert (s : OrdSet κ) (k : κ) : OrdSet κ :=
  ⟨insertElem k s.elems, insertElem_sorted k s.sorted⟩

@[simp] theorem mem_insert {s : OrdSet κ} {k x : κ} : x ∈ s.insert k ↔ x = k ∨ x ∈ s :=
  mem_insertElem

/-- The set without one element. -/
def erase (s : OrdSet κ) (k : κ) : OrdSet κ :=
  ⟨s.elems.filter (· ≠ k), s.sorted.filter _⟩

@[simp] theorem mem_erase {s : OrdSet κ} {k x : κ} : x ∈ s.erase k ↔ x ≠ k ∧ x ∈ s := by
  show x ∈ s.elems.filter (· ≠ k) ↔ _
  simp [List.mem_filter, mem_elems, and_comm]

/-- The set of a list's elements. -/
def ofList (l : List κ) : OrdSet κ := l.foldl insert empty

theorem mem_foldl_insert {x : κ} :
    ∀ {l : List κ} {s : OrdSet κ}, x ∈ l.foldl insert s ↔ x ∈ l ∨ x ∈ s
  | [], _ => by simp
  | k :: rest, s => by
    rw [List.foldl_cons, mem_foldl_insert]
    simp [or_left_comm, or_assoc]

@[simp] theorem mem_ofList {l : List κ} {x : κ} : x ∈ ofList l ↔ x ∈ l := by
  simp [ofList, mem_foldl_insert]

end OrdSet

end QuickJit
