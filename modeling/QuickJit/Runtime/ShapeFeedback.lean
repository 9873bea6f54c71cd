import QuickJit.Lib.Transition
import QuickJit.Runtime.Coordinator

/-
  Feedback about receiver shapes (`runtime/shape_feedback.rs`).

  A property site lists the shapes it has seen, the newest last, with at most
  one entry for a shape identity. A site that would exceed the limit becomes
  megamorphic, forgets its list and stays that way. The table counts the
  changes of its sites; moving an entry to the end of its list is none.

  Correspondence (Rust ↔ Lean):
    `ShapeToken`, `PrototypeDependencyToken` ↔ `DependencyToken`
    `PropertyAttributes`                     ↔ its bits
    `observations.last()`, `retain`          ↔ `getLast?`, `filter`
    `version.wrapping_add(1)`                ↔ `wrappingSucc`
-/

namespace QuickJit

/-- `u64::wrapping_add(1)`. -/
def wrappingSucc (n : Nat) : Nat := (n + 1) % 2 ^ 64

theorem wrappingSucc_eq {n : Nat} (h : n + 1 < 2 ^ 64) : wrappingSucc n = n + 1 :=
  Nat.mod_eq_of_lt h

structure ShapeObservation where
  shape : DependencyToken
  prototype : DependencyToken
  offset : BitVec 32
  attributes : BitVec 8
  value : ObservedType
  deriving DecidableEq, Repr

inductive ShapeFeedbackState where
  | monomorphic | polymorphic | megamorphic
  deriving DecidableEq, Repr

structure ShapeFeedbackSite where
  state : ShapeFeedbackState
  observations : List ShapeObservation
  deriving DecidableEq, Repr

structure ShapeFeedbackKey where
  function : FunctionKey
  pc : Nat
  deriving Repr

namespace ShapeFeedbackKey

/-- What the derived order compares. -/
def fields (key : ShapeFeedbackKey) : List Nat := [key.function.id, key.function.generation, key.pc]

theorem fields_injective : Function.Injective fields := by
  rintro ⟨⟨_, _⟩, _⟩ ⟨⟨_, _⟩, _⟩ h
  simp_all [fields]

instance : LinearOrder ShapeFeedbackKey := LinearOrder.lift' fields fields_injective

end ShapeFeedbackKey

namespace ShapeFeedbackSite

/-- A site before its first observation. -/
def empty : ShapeFeedbackSite := ⟨.monomorphic, []⟩

/-- The state of a list that is within the limit. -/
def listed (observations : List ShapeObservation) : ShapeFeedbackSite where
  state := if observations.length = 1 then .monomorphic else .polymorphic
  observations := observations

/-- What `observe` does to a site that has not just seen the observation: it
replaces the entry of its shape identity. -/
def record (limit : Nat) (site : ShapeFeedbackSite) (o : ShapeObservation) : ShapeFeedbackSite :=
  let kept := site.observations.filter fun c => c.shape.identity ≠ o.shape.identity
  if o ∈ kept then listed kept
  else if limit ≤ kept.length then ⟨.megamorphic, []⟩
  else listed (kept ++ [o])

end ShapeFeedbackSite

structure ShapeFeedbackTable where
  polymorphicLimit : Nat
  sites : OrdMap ShapeFeedbackKey ShapeFeedbackSite
  version : Nat

namespace ShapeFeedbackTable

def new (polymorphicLimit : Nat) : ShapeFeedbackTable where
  polymorphicLimit := max polymorphicLimit 1
  sites := .empty
  version := 0

def observe (t : ShapeFeedbackTable) (key : ShapeFeedbackKey) (o : ShapeObservation) :
    ShapeFeedbackTable × ShapeFeedbackState :=
  let site := (t.sites.get? key).getD .empty
  if site.state = .megamorphic ∨ site.observations.getLast? = some o then
    ({ t with sites := t.sites.insert key site }, site.state)
  else
    ({ t with
       sites := t.sites.insert key (site.record t.polymorphicLimit o)
       version := if o ∈ site.observations then t.version else wrappingSucc t.version },
     (site.record t.polymorphicLimit o).state)

/-- The table after some observations. -/
def run (polymorphicLimit : Nat) (seen : List (ShapeFeedbackKey × ShapeObservation)) :
    ShapeFeedbackTable :=
  seen.foldl (fun t s => (t.observe s.1 s.2).1) (new polymorphicLimit)

end ShapeFeedbackTable

/-! ## Sites -/

/-- The same state and the same set of observations. -/
def ShapeFeedbackSite.Same (s s' : ShapeFeedbackSite) : Prop :=
  s.state = s'.state ∧ ∀ o, o ∈ s.observations ↔ o ∈ s'.observations

structure ShapeFeedbackSite.Ok (limit : Nat) (s : ShapeFeedbackSite) : Prop where
  /-- One observation for a shape identity. -/
  identities : (s.observations.map fun o => o.shape.identity).Nodup
  bounded : s.observations.length ≤ limit
  megamorphic : s.state = .megamorphic → s.observations = []
  state_eq : s.state ≠ .megamorphic → s = .listed s.observations

namespace ShapeFeedbackSite

variable {limit : Nat} {s : ShapeFeedbackSite} {o : ShapeObservation}

/-- The entries of other shape identities. -/
def others (s : ShapeFeedbackSite) (o : ShapeObservation) : List ShapeObservation :=
  s.observations.filter fun c => c.shape.identity ≠ o.shape.identity

theorem not_mem_others (s : ShapeFeedbackSite) (o : ShapeObservation) : o ∉ s.others o := by
  simp [others]

theorem record_eq (limit : Nat) (s : ShapeFeedbackSite) (o : ShapeObservation) :
    s.record limit o =
      if limit ≤ (s.others o).length then ⟨.megamorphic, []⟩ else listed (s.others o ++ [o]) :=
  if_neg (s.not_mem_others o)

theorem listed_state_ne (observations : List ShapeObservation) :
    (listed observations).state ≠ .megamorphic := by
  unfold listed
  dsimp only
  split <;> nofun

theorem identities_snoc (h : (s.observations.map fun o => o.shape.identity).Nodup)
    (o : ShapeObservation) : ((s.others o ++ [o]).map fun c => c.shape.identity).Nodup := by
  rw [List.map_append, List.nodup_append]
  refine ⟨h.sublist (List.filter_sublist.map _), List.nodup_singleton _, ?_⟩
  intro a ha b hb
  obtain ⟨c, hc, rfl⟩ := List.mem_map.mp ha
  rw [List.map_singleton, List.mem_singleton] at hb
  rw [hb]
  simpa using (List.mem_filter.mp hc).2

theorem record_ok (h : (s.observations.map fun o => o.shape.identity).Nodup)
    (o : ShapeObservation) : (s.record limit o).Ok limit := by
  rw [record_eq]
  split
  · exact ⟨List.nodup_nil, Nat.zero_le _, fun _ => rfl, fun hne => absurd rfl hne⟩
  case isFalse hlt =>
    refine ⟨identities_snoc h o, ?_, fun hmega => absurd hmega (listed_state_ne _), fun _ => rfl⟩
    rw [listed, List.length_append, List.length_singleton]
    omega

/-- Seeing a listed observation again moves it to the end. -/
theorem Ok.record_mem (h : s.Ok limit) (hstate : s.state ≠ .megamorphic) (ho : o ∈ s.observations) :
    s.Same (s.record limit o) := by
  -- the observation is the only one of its identity, so the others are the rest
  have hperm : (s.others o ++ [o]).Perm s.observations := by
    refine (List.perm_ext_iff_of_nodup (identities_snoc h.identities o).of_map
      h.identities.of_map).mpr ?_
    intro c
    simp only [others, List.mem_append, List.mem_filter, List.mem_singleton, decide_eq_true_eq]
    refine ⟨?_, fun hc => ?_⟩
    · rintro (⟨hc, -⟩ | rfl)
      · exact hc
      · exact ho
    · by_cases hidentity : c.shape.identity = o.shape.identity
      · exact .inr (List.inj_on_of_nodup_map h.identities hc ho hidentity)
      · exact .inl ⟨hc, hidentity⟩
  have hlength := hperm.length_eq
  rw [List.length_append, List.length_singleton] at hlength
  have hbound := h.bounded
  rw [record_eq, if_neg (by omega)]
  refine ⟨?_, fun c => hperm.mem_iff.symm⟩
  have hstate' : s.state = (listed s.observations).state :=
    congrArg ShapeFeedbackSite.state (h.state_eq hstate)
  simp only [hstate', listed, List.length_append, List.length_singleton, hlength]

/-- A new observation changes the site. -/
theorem record_not_mem (hstate : s.state ≠ .megamorphic) (ho : o ∉ s.observations) :
    ¬s.Same (s.record limit o) := by
  rintro ⟨hsame, hset⟩
  rw [record_eq] at hsame hset
  split at hsame
  case isTrue => exact hstate hsame
  case isFalse hlt =>
    rw [if_neg hlt] at hset
    exact ho ((hset o).mpr (by simp [listed]))

end ShapeFeedbackSite

/-! ## The table -/

namespace ShapeFeedbackTable

variable {t : ShapeFeedbackTable} {key : ShapeFeedbackKey} {o : ShapeObservation} {version : Nat}
  {site site' : ShapeFeedbackSite}

/-- What an observation does: nothing to a megamorphic site or one that has just
seen it, a new site, or a new list for an old one. -/
inductive Observes (t : ShapeFeedbackTable) (key : ShapeFeedbackKey) (o : ShapeObservation) :
    ShapeFeedbackTable → Prop
  | settled {site : ShapeFeedbackSite} (hsite : t.sites.get? key = some site) :
      Observes t key o { t with sites := t.sites.insert key site }
  | first (hsite : t.sites.get? key = none) :
      Observes t key o { t with
        sites := t.sites.insert key (ShapeFeedbackSite.empty.record t.polymorphicLimit o)
        version := wrappingSucc t.version }
  | known {site : ShapeFeedbackSite} (hsite : t.sites.get? key = some site)
      (hstate : site.state ≠ .megamorphic) (ho : o ∈ site.observations) :
      Observes t key o { t with sites := t.sites.insert key (site.record t.polymorphicLimit o) }
  | fresh {site : ShapeFeedbackSite} (hsite : t.sites.get? key = some site)
      (hstate : site.state ≠ .megamorphic) (ho : o ∉ site.observations) :
      Observes t key o { t with
        sites := t.sites.insert key (site.record t.polymorphicLimit o)
        version := wrappingSucc t.version }

theorem observe_observes (t : ShapeFeedbackTable) (key : ShapeFeedbackKey) (o : ShapeObservation) :
    Observes t key o (t.observe key o).1 := by
  unfold observe
  cases hsite : t.sites.get? key with
  | none => exact .first hsite
  | some site =>
    simp only [Option.getD_some]
    split
    case isTrue => exact .settled hsite
    case isFalse h =>
      obtain ⟨hstate, -⟩ := not_or.mp h
      split
      case isTrue ho => exact .known hsite hstate ho
      case isFalse ho => exact .fresh hsite hstate ho

/-- Every site of the table is as it should be. -/
def SitesOk (t : ShapeFeedbackTable) : Prop :=
  ∀ key site, t.sites.get? key = some site → site.Ok t.polymorphicLimit

/-- No site differs in its state or its set of observations. -/
def SameSites (t t' : ShapeFeedbackTable) : Prop :=
  ∀ key, Option.Rel ShapeFeedbackSite.Same (t.sites.get? key) (t'.sites.get? key)

theorem sitesOk_insert (h : t.SitesOk) (hsite : site.Ok t.polymorphicLimit) :
    SitesOk { t with sites := t.sites.insert key site, version } := by
  intro key' site' hget
  rcases OrdMap.get?_insert_cases hget with ⟨-, rfl⟩ | hget
  · exact hsite
  · exact h key' site' hget

theorem observe_sitesOk (h : t.SitesOk) (key : ShapeFeedbackKey) (o : ShapeObservation) :
    (t.observe key o).1.SitesOk ∧ (t.observe key o).1.polymorphicLimit = t.polymorphicLimit := by
  have hobserves := observe_observes t key o
  generalize (t.observe key o).1 = t' at hobserves
  cases hobserves with
  | settled hsite => exact ⟨sitesOk_insert h (h key _ hsite), rfl⟩
  | first =>
    have hempty : (ShapeFeedbackSite.empty.observations.map fun o => o.shape.identity).Nodup :=
      List.nodup_nil
    exact ⟨sitesOk_insert h (ShapeFeedbackSite.record_ok hempty o), rfl⟩
  | known hsite =>
    exact ⟨sitesOk_insert h (ShapeFeedbackSite.record_ok (h key _ hsite).identities o), rfl⟩
  | fresh hsite =>
    exact ⟨sitesOk_insert h (ShapeFeedbackSite.record_ok (h key _ hsite).identities o), rfl⟩

theorem run_sitesOk (polymorphicLimit : Nat) (seen : List (ShapeFeedbackKey × ShapeObservation)) :
    (run polymorphicLimit seen).SitesOk ∧
      (run polymorphicLimit seen).polymorphicLimit = max polymorphicLimit 1 := by
  induction seen using List.reverseRecOn with
  | nil => exact ⟨fun key site hget => (nomatch hget), rfl⟩
  | append_singleton seen last ih =>
    obtain ⟨hok, hlimit⟩ := observe_sitesOk ih.1 last.1 last.2
    simp only [run, List.foldl_append, List.foldl_cons, List.foldl_nil] at hok hlimit ih ⊢
    exact ⟨hok, hlimit.trans ih.2⟩

theorem same_insert (hsite : t.sites.get? key = some site) (hsame : site.Same site') :
    t.SameSites { t with sites := t.sites.insert key site', version } := by
  intro key'
  by_cases hkey : key = key'
  · subst hkey
    rw [OrdMap.get?_insert_self, hsite]
    exact .some hsame
  · rw [OrdMap.get?_insert_ne _ _ hkey]
    cases t.sites.get? key' with
    | none => exact .none
    | some s => exact .some ⟨rfl, fun _ => Iff.rfl⟩

theorem not_same_insert (hsite : ∀ site, t.sites.get? key = some site → ¬site.Same site') :
    ¬t.SameSites { t with sites := t.sites.insert key site', version } := by
  intro hsame
  have hkey := hsame key
  rw [OrdMap.get?_insert_self] at hkey
  cases hget : t.sites.get? key with
  | none =>
    rw [hget] at hkey
    cases hkey
  | some site =>
    rw [hget] at hkey
    cases hkey with
    | some h => exact hsite site hget h

/-- The version counts the observations that changed a site. -/
theorem observe_version (h : t.SitesOk) (hversion : t.version + 1 < 2 ^ 64) (key : ShapeFeedbackKey)
    (o : ShapeObservation) :
    (t.SameSites (t.observe key o).1 → (t.observe key o).1.version = t.version) ∧
      (¬t.SameSites (t.observe key o).1 → (t.observe key o).1.version = t.version + 1) := by
  have hobserves := observe_observes t key o
  generalize (t.observe key o).1 = t' at hobserves
  cases hobserves with
  | settled hsite =>
    exact ⟨fun _ => rfl, fun hne => absurd (same_insert hsite ⟨rfl, fun _ => Iff.rfl⟩) hne⟩
  | first hsite =>
    refine ⟨fun hsame => absurd hsame (not_same_insert fun site hget => ?_),
      fun _ => wrappingSucc_eq hversion⟩
    rw [hsite] at hget
    cases hget
  | known hsite hstate ho =>
    exact ⟨fun _ => rfl, fun hne =>
      absurd (same_insert hsite ((h key _ hsite).record_mem hstate ho)) hne⟩
  | fresh hsite hstate ho =>
    refine ⟨fun hsame => absurd hsame (not_same_insert fun site hget => ?_),
      fun _ => wrappingSucc_eq hversion⟩
    cases hsite.symm.trans hget
    exact ShapeFeedbackSite.record_not_mem hstate ho

/-- A megamorphic site never changes again. -/
theorem observe_megamorphic {key' : ShapeFeedbackKey} (hsite : t.sites.get? key' = some site)
    (hmega : site.state = .megamorphic) :
    (t.observe key o).1.sites.get? key' = some site := by
  by_cases hkey : key = key'
  · subst hkey
    unfold observe
    rw [hsite]
    simp only [Option.getD_some, hmega, true_or, if_true]
    exact OrdMap.get?_insert_self _ _ _
  · have hobserves := observe_observes t key o
    generalize (t.observe key o).1 = t' at hobserves
    cases hobserves <;> exact (OrdMap.get?_insert_ne _ _ hkey).trans hsite

end ShapeFeedbackTable

end QuickJit
