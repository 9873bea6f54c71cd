import QuickJit.Ir.Trace

/-
  Inputs and phis.

  Every block gets an input for each frame slot and each slot of its stack
  (`InputsOk`). After the bodies, each input becomes a phi with one entry for
  each edge into the block, holding what the predecessor leaves in the slot; in
  a loop at pc 0 there is one more entry for the start of the function, and an
  input of a function that does not loop to pc 0 stays an input (`Linked`).
-/

namespace QuickJit

open Outcome ScalarGraph

variable {exits : Exits} {slot : FrameSlot} {slots : List FrameSlot} {blocks : List OptimizedBlock}
  {nodeCount pc : Nat} {g g' : ScalarGraph}

/-! ## Allocating the inputs -/

/-- The inputs of the blocks allocated so far. -/
structure InputsOk (slots : List FrameSlot) (blocks : List OptimizedBlock) (g : ScalarGraph) :
    Prop where
  get : ∀ b ∈ blocks, ∃ bindings, g.blockInputs.get? b.startPc = some bindings ∧
    bindings.map (·.1) = blockSlots slots b
  owner : ∀ {pc bindings}, g.blockInputs.get? pc = some bindings →
    ∃ b ∈ blocks, b.startPc = pc ∧ bindings.map (·.1) = blockSlots slots b
  ready : ∀ {pc bindings}, g.blockInputs.get? pc = some bindings → ∀ {slot v},
    (slot, v) ∈ bindings → g.definitions[v]? = some ⟨.input pc slot, .block pc⟩
  origin : ∀ {v : Nat} {d : Definition}, g.definitions[v]? = some d → ∃ pc bindings slot,
    d.origin = .block pc ∧ g.blockInputs.get? pc = some bindings ∧ (slot, v) ∈ bindings

theorem allocateInputs_ok {pre : List OptimizedBlock} {b : OptimizedBlock}
    (hg : InputsOk slots pre g) (hpc : b.startPc ∉ pre.map (·.startPc))
    (h : allocateInputs slots g b = .ok g') : InputsOk slots (pre ++ [b]) g' := by
  simp only [allocateInputs, bind_eq_ok] at h
  obtain ⟨⟨bindings, g₁⟩, halloc, h⟩ := h
  cases h
  have hal := allocate_eq_ok halloc
  obtain ⟨ds, rfl, horigin⟩ := hal.graph_eq
  have hkeep : ∀ {v d}, g.definitions[v]? = some d → (g.definitions ++ ds)[v]? = some d :=
    fun hv => by
      rw [List.getElem?_append_left (List.getElem?_eq_some_iff.mp hv).1]
      exact hv
  refine ⟨fun b' hb' => ?_, fun {pc bindings'} hget => ?_, fun {pc bindings'} hget => ?_,
    fun {v d} hv => ?_⟩
  · rcases List.mem_append.mp hb' with hb' | hb'
    · have hne : b.startPc ≠ b'.startPc := fun heq =>
        hpc (heq ▸ List.mem_map_of_mem (f := OptimizedBlock.startPc) hb')
      obtain ⟨bindings', hget, hslots⟩ := hg.get b' hb'
      exact ⟨bindings', (OrdMap.get?_insert_ne _ _ hne).trans hget, hslots⟩
    · rw [List.mem_singleton.mp hb']
      exact ⟨bindings, OrdMap.get?_insert_self _ _ _, hal.slots_eq⟩
  · rcases OrdMap.get?_insert_cases hget with ⟨rfl, rfl⟩ | hget
    · exact ⟨b, by simp, rfl, hal.slots_eq⟩
    · obtain ⟨b', hb', hpc', hslots⟩ := hg.owner hget
      exact ⟨b', List.mem_append_left _ hb', hpc', hslots⟩
  · rcases OrdMap.get?_insert_cases hget with ⟨rfl, rfl⟩ | hget
    · exact hal.get
    · exact fun hmem => hkeep (hg.ready hget hmem)
  · have hlt := (List.getElem?_eq_some_iff.mp hv).1
    rw [List.getElem?_append] at hv
    split at hv
    case isTrue hold =>
      obtain ⟨pc, bindings', slot, hpc', hget, hmem⟩ := hg.origin hv
      obtain ⟨b', hb', hstart, -⟩ := hg.owner hget
      have hne : b.startPc ≠ pc := fun heq =>
        hpc (heq ▸ hstart ▸ List.mem_map_of_mem (f := OptimizedBlock.startPc) hb')
      exact ⟨pc, bindings', slot, hpc', (OrdMap.get?_insert_ne _ _ hne).trans hget, hmem⟩
    case isFalse hnew =>
      obtain ⟨slot, -, hmem⟩ := hal.covers (Nat.not_lt.mp hnew) hlt
      exact ⟨_, bindings, slot, horigin d (List.mem_of_getElem? hv), OrdMap.get?_insert_self _ _ _,
        hmem⟩

theorem allocateInputs_row {b : OptimizedBlock} (h : allocateInputs slots g b = .ok g') (id : Nat) :
    g'.row id = g.row id := by
  simp only [allocateInputs, bind_eq_ok] at h
  obtain ⟨⟨bindings, g₁⟩, halloc, h⟩ := h
  cases h
  obtain ⟨ds, rfl, -⟩ := (allocate_eq_ok halloc).graph_eq
  rfl

theorem allocateBlocks_ok (hpcs : (blocks.map (·.startPc)).Nodup)
    (h : blocks.foldlM (allocateInputs slots) (initial nodeCount) = .ok g) :
    InputsOk slots blocks g ∧ ∀ id, g.row id = (initial nodeCount).row id := by
  refine foldlM_inv (P := fun pre g => InputsOk slots pre g ∧
    ∀ id, g.row id = (initial nodeCount).row id) h ⟨⟨?_, ?_, ?_, ?_⟩, fun _ => rfl⟩ ?_
  · exact fun _ hb => (List.not_mem_nil hb).elim
  · exact fun hget => absurd hget (by simp [initial])
  · exact fun hget => absurd hget (by simp [initial])
  · exact fun hv => absurd hv (by simp [initial])
  · intro pre b post g g' hl hg hstep
    refine ⟨allocateInputs_ok hg.1 ?_ hstep, fun id => (allocateInputs_row hstep id).trans (hg.2 id)⟩
    rw [hl, List.map_append, List.map_cons, List.nodup_append] at hpcs
    exact fun hmem => hpcs.2.2 _ hmem _ List.mem_cons_self rfl

/-! ## Phis -/

/-- What a block leaves in a slot. -/
def exitOf (exits : Exits) (slot : FrameSlot) (predecessor : Nat) : Option Nat :=
  (exits.get? predecessor).bind fun exit =>
    match slot with
    | .stack index => exit.2[index]?
    | slot => exit.1 slot

structure PhiOf (G : ScalarGraph) (exits : Exits) (predecessors : List Nat) (pc : Nat)
    (slot : FrameSlot) (inputs : List ScalarPhiInput) : Prop where
  /-- Each edge brings what its predecessor leaves. -/
  edge : ∀ {i}, i ∈ inputs → ∀ {p}, i.predecessor = some p →
    p ∈ predecessors ∧ exitOf exits slot p = some i.value
  covers : ∀ {p}, p ∈ predecessors → ∃ i ∈ inputs, i.predecessor = some p
  /-- The entry of the function brings an input of the function. -/
  entry : ∀ {i}, i ∈ inputs → i.predecessor = none →
    pc = 0 ∧ G.definitions[i.value]? = some ⟨.input pc slot, .entry⟩
  entry_covers : pc = 0 → ∃ i ∈ inputs, i.predecessor = none

/-- What an input of a block has become. -/
def Linked (G : ScalarGraph) (exits : Exits) (predecessors : List Nat) (pc : Nat)
    (slot : FrameSlot) (v : Nat) : Prop :=
  (predecessors = [] ∧ pc = 0 ∧ G.definitions[v]? = some ⟨.input pc slot, .block pc⟩) ∨
    ∃ inputs, G.definitions[v]? = some ⟨.phi pc slot inputs, .block pc⟩ ∧
      PhiOf G exits predecessors pc slot inputs

theorem exitValue_eq_ok {predecessor : Nat} {i : ScalarPhiInput}
    (h : exitValue exits slot predecessor = .ok i) :
    i.predecessor = some predecessor ∧ exitOf exits slot predecessor = some i.value := by
  simp only [exitValue, bind_eq_ok, okOr_eq_ok] at h
  obtain ⟨exit, hexit, v, hv, h⟩ := h
  cases h
  refine ⟨rfl, ?_⟩
  rw [exitOf, hexit, Option.bind_some]
  exact hv

theorem mapM_forall₂ {α β : Type} {f : α → CompileOutcome β} :
    ∀ {l : List α} {bs : List β}, l.mapM f = .ok bs → List.Forall₂ (fun a b => f a = .ok b) l bs
  | [], bs, h => by
    rw [List.mapM_nil, pure_eq_ok] at h
    rw [← h]
    exact .nil
  | a :: l, bs, h => by
    simp only [List.mapM_cons, bind_eq_ok, pure_eq_ok] at h
    obtain ⟨b, hb, bs', hbs, rfl⟩ := h
    exact .cons hb (mapM_forall₂ hbs)

/-- What making one phi does to the graph. -/
structure LinkStep (exits : Exits) (incoming : List Nat) (pc : Nat) (binding : FrameSlot × Nat)
    (g g' : ScalarGraph) : Prop where
  linked : Linked g' exits incoming pc binding.1 binding.2
  others : ∀ {u : Nat} {d : Definition}, u ≠ binding.2 → g.definitions[u]? = some d →
    g'.definitions[u]? = some d
  added : ∀ {u : Nat} {d : Definition}, g'.definitions[u]? = some d →
    u < g.definitions.length ∨ ∃ slot, d = ⟨.input 0 slot, .entry⟩
  same : g' = { g with definitions := g'.definitions }

theorem entryInput_eq_ok {first : List ScalarPhiInput} (h : entryInput pc slot g = .ok (first, g')) :
    (pc = 0 ∧ first = [⟨none, g.definitions.length⟩] ∧
        g' = { g with definitions := g.definitions ++ [⟨.input pc slot, .entry⟩] }) ∨
      (pc ≠ 0 ∧ first = [] ∧ g' = g) := by
  unfold entryInput at h
  split at h
  case isTrue hpc =>
    simp only [bind_eq_ok] at h
    obtain ⟨⟨v, g₁⟩, hpush, h⟩ := h
    cases h
    obtain ⟨rfl, rfl⟩ := push_eq_ok hpush
    exact .inl ⟨hpc, rfl, rfl⟩
  case isFalse hpc =>
    cases h
    exact .inr ⟨hpc, rfl, rfl⟩

theorem linkPhi_eq_ok {incoming : List Nat} {state state' : ScalarGraph × Nat}
    {binding : FrameSlot × Nat}
    (hready : state.1.definitions[binding.2]? = some ⟨.input pc binding.1, .block pc⟩)
    (h : linkPhi nodeCount exits incoming pc state binding = .ok state') :
    LinkStep exits incoming pc binding state.1 state'.1 := by
  unfold linkPhi at h
  split at h
  case isTrue hnil =>
    rw [ite_fail_eq_ok] at h
    cases h.2
    exact ⟨.inl ⟨hnil, not_not.mp h.1, hready⟩, fun _ hu => hu,
      fun hu => .inl (List.getElem?_eq_some_iff.mp hu).1, rfl⟩
  case isFalse hne =>
    simp only at h
    rw [ite_fail_eq_ok] at h
    simp only [bind_eq_ok] at h
    obtain ⟨-, ⟨first, g₁⟩, hfirst, rest, hrest, h⟩ := h
    cases h
    have hrest := mapM_forall₂ hrest
    have hlt := (List.getElem?_eq_some_iff.mp hready).1
    -- The definitions with the entry input, if there is one.
    have hg₁ : ∃ ds, g₁ = { state.1 with definitions := state.1.definitions ++ ds } ∧
        ∀ d ∈ ds, ∃ slot, d = ⟨.input 0 slot, .entry⟩ := by
      rcases entryInput_eq_ok hfirst with ⟨hpc, -, rfl⟩ | ⟨-, -, rfl⟩
      · exact ⟨_, rfl, fun d hd => ⟨binding.1, by rw [List.mem_singleton.mp hd, hpc]⟩⟩
      · exact ⟨[], by simp, fun _ hd => (List.not_mem_nil hd).elim⟩
    obtain ⟨ds, rfl, hds⟩ := hg₁
    refine ⟨.inr ⟨first ++ rest, ?_, ?_, ?_, ?_, ?_⟩, ?_, ?_, rfl⟩
    · simp [List.getElem?_append_left hlt, hready]
    · intro i hi p hp
      rcases List.mem_append.mp hi with hi | hi
      · rcases entryInput_eq_ok hfirst with ⟨-, rfl, -⟩ | ⟨-, rfl, -⟩
        · rw [List.mem_singleton.mp hi] at hp
          cases hp
        · cases hi
      · obtain ⟨q, hq, hexit⟩ := forall₂_mem_right hrest hi
        obtain ⟨hpred, hval⟩ := exitValue_eq_ok hexit
        cases hpred.symm.trans hp
        exact ⟨hq, hval⟩
    · intro p hp
      obtain ⟨i, hi, hexit⟩ := forall₂_mem_left hrest hp
      exact ⟨i, List.mem_append_right _ hi, (exitValue_eq_ok hexit).1⟩
    · intro i hi hnone
      rcases List.mem_append.mp hi with hi | hi
      · rcases entryInput_eq_ok hfirst with ⟨hpc, rfl, heq⟩ | ⟨-, rfl, -⟩
        · rw [List.mem_singleton.mp hi]
          have hdefs : state.1.definitions ++ ds =
              state.1.definitions ++ [⟨.input pc binding.1, .entry⟩] :=
            congrArg definitions heq
          refine ⟨hpc, ?_⟩
          simp [hdefs, Nat.ne_of_lt hlt]
        · cases hi
      · obtain ⟨q, -, hexit⟩ := forall₂_mem_right hrest hi
        rw [(exitValue_eq_ok hexit).1] at hnone
        cases hnone
    · intro hpc
      rcases entryInput_eq_ok hfirst with ⟨-, rfl, -⟩ | ⟨hpc', -, -⟩
      · exact ⟨_, List.mem_append_left _ List.mem_cons_self, rfl⟩
      · exact absurd hpc hpc'
    · intro u d hu hd
      simp [hu.symm, List.getElem?_append_left (List.getElem?_eq_some_iff.mp hd).1, hd]
    · intro u d hd
      rcases Nat.lt_or_ge u state.1.definitions.length with hu | hu
      · exact .inl hu
      · right
        have hu' : binding.2 ≠ u := by omega
        have hd' : (state.1.definitions ++ ds)[u]? = some d := by simpa [hu'] using hd
        rw [List.getElem?_append_right hu] at hd'
        exact hds d (List.mem_of_getElem? hd')

/-! ## All phis -/

/-- The inputs of all blocks, each with the pc of its block. -/
def allBindings (entries : List (Nat × List (FrameSlot × Nat))) : List (Nat × FrameSlot × Nat) :=
  entries.flatMap fun entry => entry.2.map fun binding => (entry.1, binding)

theorem linkBlocks_eq :
    ∀ {entries : List (Nat × List (FrameSlot × Nat))} {state : ScalarGraph × Nat},
      entries.foldlM (linkBlock nodeCount blocks exits) state =
        (allBindings entries).foldlM (fun state b =>
          linkPhi nodeCount exits (predecessorsOf blocks b.1) b.1 state b.2) state
  | [], _ => rfl
  | entry :: entries, state => by
    rw [List.foldlM_cons, allBindings, List.flatMap_cons, List.foldlM_append, List.foldlM_map]
    refine bind_congr fun state' => ?_
    exact linkBlocks_eq

/-- The graph with some of the inputs linked. `g₀` is the graph before. -/
structure LinkedOver (exits : Exits) (blocks : List OptimizedBlock) (g₀ : ScalarGraph)
    (done : List (Nat × FrameSlot × Nat)) (g : ScalarGraph) : Prop where
  linked : ∀ {pc slot v}, (pc, slot, v) ∈ done →
    Linked g exits (predecessorsOf blocks pc) pc slot v
  others : ∀ {u : Nat} {d : Definition}, (∀ b ∈ done, b.2.2 ≠ u) → g₀.definitions[u]? = some d →
    g.definitions[u]? = some d
  added : ∀ {u : Nat} {d : Definition}, g.definitions[u]? = some d →
    u < g₀.definitions.length ∨ ∃ slot, d = ⟨.input 0 slot, .entry⟩
  same : g = { g₀ with definitions := g.definitions }

theorem Linked.mono {predecessors : List Nat} {v : Nat} (h : Linked g exits predecessors pc slot v)
    (hkeep : ∀ {u d}, u = v ∨ d.origin = .entry → g.definitions[u]? = some d →
      g'.definitions[u]? = some d) : Linked g' exits predecessors pc slot v := by
  rcases h with ⟨hnil, hpc, hv⟩ | ⟨inputs, hv, hphi⟩
  · exact .inl ⟨hnil, hpc, hkeep (.inl rfl) hv⟩
  · refine .inr ⟨inputs, hkeep (.inl rfl) hv, hphi.edge, hphi.covers, fun hi hnone => ?_,
      hphi.entry_covers⟩
    obtain ⟨hpc, hentry⟩ := hphi.entry hi hnone
    exact ⟨hpc, hkeep (.inr rfl) hentry⟩

/-- Every binding is linked, when the bindings have values of their own. -/
theorem linkAll_ok {bindings : List (Nat × FrameSlot × Nat)} {r : ScalarGraph × Nat}
    (hready : ∀ b ∈ bindings, g.definitions[b.2.2]? = some ⟨.input b.1 b.2.1, .block b.1⟩)
    (hnodup : bindings.Nodup) (h : bindings.foldlM (fun state b =>
      linkPhi nodeCount exits (predecessorsOf blocks b.1) b.1 state b.2) (g, 0) = .ok r) :
    LinkedOver exits blocks g bindings r.1 := by
  -- Two bindings with one value are the same binding.
  have hinj : ∀ b ∈ bindings, ∀ b' ∈ bindings, b.2.2 = b'.2.2 → b = b' := by
    intro b hb b' hb' heq
    have hdef := (hready b hb).symm.trans (heq ▸ hready b' hb')
    simp only [Option.some.injEq, Definition.mk.injEq, ScalarValue.input.injEq] at hdef
    exact Prod.ext hdef.1.1 (Prod.ext hdef.1.2 heq)
  refine foldlM_inv (P := fun done s => LinkedOver exits blocks g done s.1) h
    ⟨fun hb => (List.not_mem_nil hb).elim, fun _ hu => hu,
      fun hu => .inl (List.getElem?_eq_some_iff.mp hu).1, rfl⟩ ?_
  intro pre b post s s' hl hs hstep
  have hb : b ∈ bindings := by simp [hl]
  have hfresh : ∀ b' ∈ pre, b'.2.2 ≠ b.2.2 := by
    intro b' hb' heq
    have hsame := hinj b' (by simp [hl, hb']) b hb heq
    rw [hl, List.nodup_append] at hnodup
    exact hnodup.2.2 b' hb' b List.mem_cons_self hsame
  have hlink := linkPhi_eq_ok (hs.others hfresh (hready b hb)) hstep
  refine ⟨fun {pc slot v} hmem => ?_, fun {u d} hu hd => ?_, fun {u d} hd => ?_, ?_⟩
  · rcases List.mem_append.mp hmem with hmem | hmem
    · refine (hs.linked hmem).mono fun {u d} hu hd => ?_
      refine hlink.others ?_ hd
      rintro rfl
      rcases hu with hu | hu
      · exact hfresh _ hmem hu.symm
      · -- The value of `b` still has its own origin.
        rw [hs.others hfresh (hready b hb)] at hd
        cases hd
        cases hu
    · cases List.mem_singleton.mp hmem
      exact hlink.linked
  · exact hlink.others (fun heq => hu b (by simp) heq.symm)
      (hs.others (fun b' hb' => hu b' (List.mem_append_left _ hb')) hd)
  · rcases hlink.added hd with hlt | horigin
    · have hget := List.getElem?_eq_getElem hlt
      rcases hs.added hget with hlt | ⟨slot, hslot⟩
      · exact .inl hlt
      · -- A value the links added is not an input of a block.
        right
        have hne : u ≠ b.2.2 := by
          rintro rfl
          rw [hs.others hfresh (hready b hb)] at hget
          rw [← Option.some.inj hget] at hslot
          cases congrArg Definition.origin hslot
        rw [hlink.others hne hget] at hd
        exact ⟨slot, Option.some.inj hd ▸ hslot⟩
    · exact .inr horigin
  · rw [hlink.same, hs.same]

end QuickJit
