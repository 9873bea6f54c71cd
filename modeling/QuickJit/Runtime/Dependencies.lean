import QuickJit.Lib.Search
import QuickJit.Runtime.Artifact

/-
  The dependency graph (`runtime/invalidate.rs`).

  A node records what its last installed version depends on; `reverse` is the
  same relation the other way round, and `invalidate` follows it. `Consistent`
  says that the two agree. Both operations keep it, and then `invalidate`
  reaches exactly the transitive dependents of its root.

  Correspondence (Rust ↔ Lean):
    `DependencyGraph::install`     ↔ `install`
    `DependencyGraph::invalidate`  ↔ `invalidate`, whose queue loop is `search`
    `nodes.get(k).is_some_and(|node| node.valid)` ↔ `isValid`
-/

namespace QuickJit

open OrdMap OrdSet

/-- An identity of a shape or a prototype at one generation. -/
structure DependencyToken where
  identity : Nat
  generation : Nat
  deriving DecidableEq, Repr

inductive DependencyKey where
  | function (key : FunctionKey)
  | shape (token : DependencyToken)
  | prototype (token : DependencyToken)
  deriving Repr

namespace DependencyKey

/-- What the derived order compares. -/
def fields : DependencyKey → List Nat
  | .function key => [0, key.id, key.generation]
  | .shape token => [1, token.identity, token.generation]
  | .prototype token => [2, token.identity, token.generation]

theorem fields_injective : Function.Injective fields := by
  rintro (⟨_, _⟩ | ⟨_, _⟩ | ⟨_, _⟩) (⟨_, _⟩ | ⟨_, _⟩ | ⟨_, _⟩) h <;> simp_all [fields]

instance : LinearOrder DependencyKey := LinearOrder.lift' fields fields_injective

instance (key : DependencyKey) (keys : List DependencyKey) : Decidable (key ∈ keys) := inferInstance

end DependencyKey

inductive DependencyError where
  | staleDependency
  | versionRegression
  | dependencyLimit
  deriving DecidableEq, Repr

structure DependencyNode where
  version : Nat
  valid : Bool
  dependencies : OrdSet DependencyKey

structure DependencyGraph where
  nodes : OrdMap DependencyKey DependencyNode
  reverse : OrdMap DependencyKey (OrdSet DependencyKey)
  shapeGenerations : OrdMap Nat Nat
  prototypeGenerations : OrdMap Nat Nat

namespace DependencyGraph

def empty : DependencyGraph := ⟨OrdMap.empty, OrdMap.empty, OrdMap.empty, OrdMap.empty⟩

def isValid (g : DependencyGraph) (key : DependencyKey) : Bool :=
  (g.nodes.get? key).any (·.valid)

/-- The keys that `reverse` lists under a key. -/
def dependents (g : DependencyGraph) (key : DependencyKey) : List DependencyKey :=
  ((g.reverse.get? key).getD OrdSet.empty).elems

/-- Take `key` out of the dependents of some keys. -/
def unlinkReverse (key : DependencyKey) (reverse : OrdMap DependencyKey (OrdSet DependencyKey))
    (dependencies : List DependencyKey) : OrdMap DependencyKey (OrdSet DependencyKey) :=
  dependencies.foldl (fun reverse d => reverse.modify d (·.erase key)) reverse

/-- Add `key` to the dependents of some keys. -/
def linkReverse (key : DependencyKey) (reverse : OrdMap DependencyKey (OrdSet DependencyKey))
    (dependencies : List DependencyKey) : OrdMap DependencyKey (OrdSet DependencyKey) :=
  dependencies.foldl
    (fun reverse d => reverse.insert d (((reverse.get? d).getD OrdSet.empty).insert key)) reverse

/-- The dependencies a key is recorded with. -/
def recorded (g : DependencyGraph) (key : DependencyKey) : List DependencyKey :=
  match g.nodes.get? key with
  | some node => node.dependencies.elems
  | none => []

def install (g : DependencyGraph) (key : DependencyKey) (version : Nat)
    (dependencies : List DependencyKey) : Except DependencyError DependencyGraph :=
  if (g.nodes.get? key).any fun node => version < node.version then .error .versionRegression
  else
    let dependencies := OrdSet.ofList dependencies
    if dependencies.elems.any fun d => !g.isValid d then .error .staleDependency
    else .ok { g with
      nodes := g.nodes.insert key ⟨version, true, dependencies⟩
      reverse := linkReverse key (unlinkReverse key g.reverse (g.recorded key)) dependencies.elems }

def markInvalid (nodes : OrdMap DependencyKey DependencyNode) (key : DependencyKey) :
    OrdMap DependencyKey DependencyNode :=
  nodes.modify key fun node => { node with valid := false }

/-- The most turns that `invalidate` can take. -/
def turns (g : DependencyGraph) : Nat :=
  1 + (g.reverse.keys.map fun k => (g.dependents k).length).sum

/-- `invalidate`; every turn takes a key from the queue, and no more keys join
it than `reverse` lists. -/
def invalidate (g : DependencyGraph) (root : DependencyKey) :
    DependencyGraph × List DependencyKey :=
  if g.nodes.contains root = false ∧ g.reverse.contains root = false then (g, [])
  else
    let (nodes, invalidated) := search g.dependents markInvalid g.turns [root] g.nodes OrdSet.empty
    ({ g with nodes }, invalidated.elems)

/-! ## Consistency -/

/-- The last installed version of `a` depends on `b`. -/
def DependsOn (g : DependencyGraph) (a b : DependencyKey) : Prop := b ∈ g.recorded a

/-- `reverse` is the relation of the nodes. -/
def Consistent (g : DependencyGraph) : Prop := ∀ a b, a ∈ g.dependents b ↔ g.DependsOn a b

variable {g g' : DependencyGraph} {key a b x : DependencyKey} {version : Nat}
  {dependencies : List DependencyKey}

theorem empty_consistent : empty.Consistent := fun _ _ => ⟨nofun, nofun⟩

theorem mem_unlinkReverse (key a b : DependencyKey) :
    ∀ (l : List DependencyKey) (reverse : OrdMap DependencyKey (OrdSet DependencyKey)),
      (a ∈ ((unlinkReverse key reverse l).get? b).getD OrdSet.empty ↔
        a ∈ (reverse.get? b).getD OrdSet.empty ∧ ¬ (a = key ∧ b ∈ l))
  | [], _ => by simp [unlinkReverse]
  | d :: rest, reverse => by
    have hrec := mem_unlinkReverse key a b rest (reverse.modify d (·.erase key))
    unfold unlinkReverse at hrec ⊢
    rw [List.foldl_cons, hrec, get?_modify]
    by_cases hd : d = b
    · subst hd
      cases reverse.get? d with
      | none => simp
      | some s =>
        simp only [if_true, Option.map_some, Option.getD_some, mem_erase, List.mem_cons]
        tauto
    · simp only [if_neg hd, List.mem_cons, Ne.symm hd, false_or]

theorem mem_linkReverse (key a b : DependencyKey) :
    ∀ (l : List DependencyKey) (reverse : OrdMap DependencyKey (OrdSet DependencyKey)),
      (a ∈ ((linkReverse key reverse l).get? b).getD OrdSet.empty ↔
        a ∈ (reverse.get? b).getD OrdSet.empty ∨ (a = key ∧ b ∈ l))
  | [], _ => by simp [linkReverse]
  | d :: rest, reverse => by
    have hrec := mem_linkReverse key a b rest
      (reverse.insert d (((reverse.get? d).getD OrdSet.empty).insert key))
    unfold linkReverse at hrec ⊢
    rw [List.foldl_cons, hrec, get?_insert]
    by_cases hd : d = b
    · subst hd
      simp only [if_true, Option.getD_some, mem_insert, List.mem_cons]
      tauto
    · simp only [if_neg hd, List.mem_cons, Ne.symm hd, false_or]

/-! ## Installation -/

/-- What a successful installation has done to the graph. -/
structure Installed (g : DependencyGraph) (key : DependencyKey) (dependencies : List DependencyKey)
    (g' : DependencyGraph) : Prop where
  consistent : g.Consistent → g'.Consistent
  recorded_self : ∀ d, d ∈ g'.recorded key ↔ d ∈ dependencies
  recorded_ne : ∀ {k}, k ≠ key → g'.recorded k = g.recorded k
  isValid_self : g'.isValid key = true
  isValid_ne : ∀ {k}, k ≠ key → g'.isValid k = g.isValid k
  contains_ne : ∀ {k}, k ≠ key → g'.nodes.contains k = g.nodes.contains k
  valid : ∀ d ∈ dependencies, g.isValid d = true

theorem install_eq_ok (h : g.install key version dependencies = .ok g') :
    g.Installed key dependencies g' := by
  unfold install at h
  split at h
  · cases h
  dsimp only at h
  split at h
  · cases h
  case isFalse hvalid =>
  cases h
  have hself : (g.nodes.insert key ⟨version, true, OrdSet.ofList dependencies⟩).get? key =
      some ⟨version, true, OrdSet.ofList dependencies⟩ := get?_insert_self ..
  have hne : ∀ {k}, k ≠ key →
      (g.nodes.insert key ⟨version, true, OrdSet.ofList dependencies⟩).get? k = g.nodes.get? k :=
    fun hk => get?_insert_ne _ _ (Ne.symm hk)
  constructor
  case consistent =>
    intro hc a b
    have hold := hc a b
    simp only [dependents, mem_elems] at hold ⊢
    rw [mem_linkReverse, mem_unlinkReverse, hold]
    by_cases ha : a = key
    · subst ha
      simp [DependsOn, recorded, hself, mem_elems]
    · simp [DependsOn, recorded, hne ha, ha]
  case recorded_self => simp [recorded, hself, mem_elems]
  case recorded_ne => exact fun hk => by simp [recorded, hne hk]
  case isValid_self => simp [isValid, hself]
  case isValid_ne => exact fun hk => by simp [isValid, hne hk]
  case contains_ne => exact fun hk => by simp [OrdMap.contains, hne hk]
  case valid =>
    intro d hd
    by_contra hinvalid
    refine hvalid (List.any_eq_true.mpr ⟨d, ?_, by simpa using hinvalid⟩)
    exact mem_ofList.mpr hd

/-! ## Invalidation -/

/-- What an invalidation has done to the graph. -/
structure Invalidated (g : DependencyGraph) (root : DependencyKey) (l : List DependencyKey)
    (g' : DependencyGraph) : Prop where
  recorded_eq : ∀ k, g'.recorded k = g.recorded k
  dependents_eq : ∀ k, g'.dependents k = g.dependents k
  isValid_eq : ∀ k, g'.isValid k = (g.isValid k && k ∉ l)
  contains_eq : ∀ k, g'.nodes.contains k = g.nodes.contains k
  closed : ∀ a b, (a ∈ l ∨ a = root) → g.DependsOn b a → b ∈ l
  reachable : ∀ x ∈ l, Relation.ReflTransGen (fun a b => g.DependsOn b a) root x
  isValid_root : g'.isValid root = false
  root_mem : g.nodes.contains root = true → root ∈ l
  nodup : l.Nodup

theorem Invalidated.consistent {l : List DependencyKey} {root : DependencyKey}
    (h : g.Invalidated root l g') (hc : g.Consistent) : g'.Consistent := fun a b => by
  rw [h.dependents_eq, DependsOn, h.recorded_eq]
  exact hc a b

/-- The nodes after the visits so far. -/
def Marked (g : DependencyGraph) (nodes : OrdMap DependencyKey DependencyNode)
    (seen : OrdSet DependencyKey) : Prop :=
  ∀ k, nodes.get? k = (g.nodes.get? k).map fun node =>
    if k ∈ seen then { node with valid := false } else node

theorem markInvalid_marked {nodes : OrdMap DependencyKey DependencyNode}
    {seen : OrdSet DependencyKey} {k : DependencyKey} (h : g.Marked nodes seen) :
    g.Marked (markInvalid nodes k) (seen.insert k) := by
  intro k'
  rw [markInvalid, get?_modify, h k']
  by_cases hk : k = k'
  · subst hk
    cases g.nodes.get? k with
    | none => simp
    | some node => by_cases hmem : k ∈ seen <;> simp [hmem]
  · simp [hk, Ne.symm hk]

theorem dependents_of_not_mem {k : DependencyKey} (h : k ∉ g.reverse.keys) :
    g.dependents k = [] := by
  have hnone : g.reverse.get? k = none := by
    by_contra hsome
    exact h (mem_keys.mpr (Option.ne_none_iff_exists'.mp hsome))
  rw [dependents, hnone]
  rfl

theorem reverse_keys_nodup (g : DependencyGraph) : g.reverse.keys.Nodup :=
  g.reverse.keys_sorted.imp ne_of_lt

theorem pending_root (g : DependencyGraph) (root : DependencyKey) :
    pending g.dependents g.reverse.keys [root] OrdSet.empty = g.turns := by
  simp [pending, turns]

/-- The queue of `invalidate` runs empty, also on a cyclic graph. -/
theorem invalidate_done (g : DependencyGraph) (root : DependencyKey) :
    queueAfter g.dependents g.turns [root] OrdSet.empty = [] :=
  search_done g.dependents g.reverse_keys_nodup (fun _ => dependents_of_not_mem) _ _ _
    (g.pending_root root).le

theorem invalidate_spec (hc : g.Consistent) (root : DependencyKey) :
    g.Invalidated root (g.invalidate root).2 (g.invalidate root).1 := by
  unfold invalidate
  split
  case isTrue habsent =>
    obtain ⟨hnode, hreverse⟩ := habsent
    have hno : g.dependents root = [] := by
      have hnone : g.reverse.get? root = none := by simpa [OrdMap.contains] using hreverse
      rw [dependents, hnone]
      rfl
    have hinvalid : g.isValid root = false := by
      have hnone : g.nodes.get? root = none := by simpa [OrdMap.contains] using hnode
      rw [isValid, hnone]
      rfl
    refine ⟨fun _ => rfl, fun _ => rfl, fun _ => by simp, fun _ => rfl, fun a b ha hab => ?_, nofun,
      hinvalid, fun h => (nomatch hnode.symm.trans h), List.nodup_nil⟩
    rcases ha with ha | rfl
    · cases ha
    · have := (hc b a).mpr hab
      rw [hno] at this
      cases this
  case isFalse =>
  dsimp only
  have hmarked : g.Marked (search g.dependents markInvalid g.turns [root] g.nodes OrdSet.empty).1
      (search g.dependents markInvalid g.turns [root] g.nodes OrdSet.empty).2 :=
    search_inv (P := g.Marked) _ _ (fun _ _ _ _ => markInvalid_marked) g.turns [root] fun k => by
      cases g.nodes.get? k <;> simp
  obtain ⟨hall, hclosed⟩ := search_closed g.dependents markInvalid g.reverse_keys_nodup
    (fun _ => dependents_of_not_mem) g.turns [root] g.nodes OrdSet.empty (g.pending_root root).le
    (by simp)
  have hroot := hall root (.inr List.mem_cons_self)
  have hreach := fun x => search_reachable g.dependents markInvalid (x := x) g.turns [root]
    g.nodes OrdSet.empty
  generalize search g.dependents markInvalid g.turns [root] g.nodes OrdSet.empty = result at *
  have hvalid : ∀ k, isValid { g with nodes := result.1 } k =
      (g.isValid k && decide (k ∉ result.2.elems)) := fun k => by
    rw [isValid, isValid, hmarked k]
    cases g.nodes.get? k with
    | none => rfl
    | some node => by_cases hmem : k ∈ result.2 <;> simp [hmem, mem_elems]
  constructor
  case recorded_eq =>
    intro k
    rw [recorded, recorded, hmarked k]
    cases g.nodes.get? k with
    | none => rfl
    | some node => by_cases hmem : k ∈ result.2 <;> simp [hmem]
  case dependents_eq => exact fun _ => rfl
  case isValid_eq => exact hvalid
  case contains_eq =>
    intro k
    rw [OrdMap.contains, OrdMap.contains, hmarked k, Option.isSome_map]
  case closed =>
    rintro a b (ha | rfl) hab
    · exact hclosed a ha b ((hc b a).mpr hab)
    · exact hclosed _ hroot b ((hc b _).mpr hab)
  case reachable =>
    intro x hx
    rcases hreach x hx with hx | ⟨k, hk, hpath⟩
    · exact absurd hx (not_mem_empty x)
    · obtain rfl := List.mem_singleton.mp hk
      exact Relation.ReflTransGen.mono (fun a b hb => (hc b a).mp hb) _ _ hpath
  case isValid_root =>
    rw [hvalid]
    simp [mem_elems, hroot]
  case root_mem => exact fun _ => hroot
  case nodup => exact result.2.sorted.imp ne_of_lt

end DependencyGraph

end QuickJit
