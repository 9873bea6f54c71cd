import Mathlib
import QuickJit.Ir.Link

/-
  What every graph that `ScalarGraph::rewrite` returns guarantees.

  `GraphOf` puts the parts together: traces of the blocks, inputs and phis, and
  the frame of the entry guard. The two last steps of the pass, integer updates
  and numeric checks, change contracts and checks only (`SameGraph`).
-/

namespace QuickJit

open OrdSet Outcome ScalarGraph

variable {built : BuiltGraph} {predecessors : List Nat} {entry n : OptimizedNode}
  {inputs : OrdMap Nat (List (FrameSlot × Nat))}

variable {exits : Exits} {slot : FrameSlot} {slots : List FrameSlot} {blocks : List OptimizedBlock}
  {v : Nat} {shape : OptimizedFrameShape} {G g : ScalarGraph}

/-! ## The last two steps -/

/-- The same graph up to contracts of updates and checks. -/
structure SameGraph (g G : ScalarGraph) : Prop where
  get : ∀ {v : Nat} {d : Definition}, g.definitions[v]? = some d →
    ∃ d', G.definitions[v]? = some d' ∧ d'.origin = d.origin ∧ d.value.Same d'.value
  length : G.definitions.length = g.definitions.length
  blockInputs : G.blockInputs = g.blockInputs
  nodeCount : G.nodeCount = g.nodeCount
  row : ∀ id, G.row id = g.row id

namespace SameGraph

theorem of_checks (h : G = { g with checks := G.checks }) : SameGraph g G := by
  rw [h]
  exact ⟨fun hv => ⟨_, hv, rfl, .inl rfl⟩, rfl, rfl, rfl, fun _ => rfl⟩

theorem trans {a b c : ScalarGraph} (h : SameGraph a b) (h' : SameGraph b c) : SameGraph a c := by
  refine ⟨fun hv => ?_, h'.length.trans h.length, h'.blockInputs.trans h.blockInputs,
    h'.nodeCount.trans h.nodeCount, fun id => (h'.row id).trans (h.row id)⟩
  obtain ⟨d₁, hd₁, ho₁, hs₁⟩ := h.get hv
  obtain ⟨d₂, hd₂, ho₂, hs₂⟩ := h'.get hd₁
  exact ⟨d₂, hd₂, ho₂.trans ho₁, hs₁.trans hs₂⟩

theorem kept (h : SameGraph g G) : g.Kept G := by
  intro v d hv
  obtain ⟨d', hd', horigin, hsame⟩ := h.get hv
  exact ⟨d', hd', horigin, fun _ => hsame⟩

/-- Every value but an update is the same. -/
theorem get_eq (h : SameGraph g G) {value : ScalarValue} {origin : ValueOrigin}
    (hv : g.definitions[v]? = some ⟨value, origin⟩)
    (hne : ∀ mode input delta, value ≠ .update mode input delta) :
    G.definitions[v]? = some ⟨value, origin⟩ := by
  obtain ⟨⟨value', origin'⟩, hd, horigin, hsame⟩ := h.get hv
  rcases hsame with heq | ⟨mode, _, input, delta, heq, -⟩
  · cases heq
    cases horigin
    exact hd
  · exact absurd heq (hne mode input delta)

/-- What the graph had is what it has. -/
theorem get_origin (h : SameGraph g G) {d : Definition} (hv : G.definitions[v]? = some d) :
    ∃ d₀, g.definitions[v]? = some d₀ ∧ d.origin = d₀.origin ∧ d₀.value.Same d.value := by
  have hlt := (List.getElem?_eq_some_iff.mp hv).1
  rw [h.length] at hlt
  obtain ⟨d', hd', horigin, hsame⟩ := h.get (List.getElem?_eq_getElem hlt)
  cases hd'.symm.trans hv
  exact ⟨_, List.getElem?_eq_getElem hlt, horigin, hsame⟩

end SameGraph

theorem specializeDefinition_same (facts : List Nat) (d : Definition) :
    (specializeDefinition facts d).origin = d.origin ∧
      d.value.Same (specializeDefinition facts d).value := by
  unfold specializeDefinition
  split
  case h_1 input delta hvalue =>
    split
    · exact ⟨rfl, .inr ⟨_, _, input, delta, hvalue, rfl⟩⟩
    · exact ⟨rfl, .inl rfl⟩
  case h_2 => exact ⟨rfl, .inl rfl⟩

theorem specializeIntegerUpdates_same (g : ScalarGraph) (nodes : List OptimizedNode)
    (preserve : Nat → Bool) (work : Nat) :
    SameGraph g (g.specializeIntegerUpdates nodes preserve work) := by
  unfold specializeIntegerUpdates
  split
  · exact .of_checks rfl
  case h_2 facts work _ =>
    simp only
    split
    · exact .of_checks rfl
    · refine ⟨fun {v d} hv => ?_, List.length_map .., rfl, rfl, fun _ => rfl⟩
      refine ⟨_, ?_, specializeDefinition_same facts d⟩
      rw [List.getElem?_map, hv, Option.map_some]

theorem nodeChecks_checks {state state' : ScalarGraph × ScalarGraph.NumericFacts}
    (h : nodeChecks state n = .ok state') :
    state'.1 = { state.1 with checks := state'.1.checks } := by
  simp only [nodeChecks] at h
  split at h
  · cases h
    rfl
  · rw [ite_fail_eq_ok] at h
    cases h.2
    rfl

theorem numericChecksForBlock_checks {exits : OrdMap Nat ScalarGraph.NumericFacts}
    {b : OptimizedBlock} {r : ScalarGraph × ScalarGraph.NumericFacts}
    (h : g.numericChecksForBlock exits b = .ok r) : r.1 = { g with checks := r.1.checks } := by
  refine foldlM_preserves (P := fun s => s.1 = { g with checks := s.1.checks }) h rfl ?_
  intro n _ s s' hs hstep
  rw [nodeChecks_checks hstep, hs]

theorem localChecks_checks (h : localChecks blocks g = .ok G) :
    G = { g with checks := G.checks } := by
  refine foldlM_preserves (P := fun s => s = { g with checks := s.checks }) h rfl ?_
  intro b _ s s' hs hstep
  simp only [bind_eq_ok] at hstep
  obtain ⟨⟨g₁, facts⟩, hb, hstep⟩ := hstep
  cases hstep
  rw [numericChecksForBlock_checks hb, hs]

theorem checkLoop_checks :
    ∀ {fuel work : Nat} {c : ScalarGraph.Checking} {G : ScalarGraph},
      checkLoop blocks fuel work c = .ok G → G = { c.graph with checks := G.checks }
  | 0, _, _, _, h => by cases h
  | fuel + 1, work, c, G, h => by
    unfold checkLoop at h
    split at h
    · cases h
      rfl
    · simp only [bind_eq_ok] at h
      obtain ⟨b, -, h⟩ := h
      split at h
      · exact localChecks_checks h
      · simp only [bind_eq_ok] at h
        obtain ⟨⟨graph, facts⟩, hb, h⟩ := h
        have hgraph : graph = { c.graph with checks := graph.checks } :=
          numericChecksForBlock_checks hb
        split at h
        · rw [checkLoop_checks h, hgraph]
        · simp only [bind_eq_ok] at h
          obtain ⟨pending, -, h⟩ := h
          rw [checkLoop_checks h, hgraph]

theorem buildNumericChecks_same {work : Nat}
    (h : g.buildNumericChecksWithBudget blocks work = .ok G) : SameGraph g G :=
  .of_checks (checkLoop_checks h)

/-! ## Tracked slots -/

theorem mentionedSlots_frame (h : mentionedSlots n = .ok slots) :
    ∀ slot ∈ slots, ∀ i, slot ≠ .stack i := by
  have hload : ∀ {name bytes slot}, loadSlot name bytes = some slot → ∀ i, slot ≠ .stack i := by
    intro name bytes slot h i
    simp only [loadSlot, Option.map_eq_some_iff] at h
    obtain ⟨index, -, rfl⟩ := h
    split <;> simp
  have hwrite : ∀ {slot}, frameWriteSlot n = some slot → ∀ i, slot ≠ .stack i := by
    intro slot h i
    simp only [frameWriteSlot, Option.bind_eq_some_iff, writtenSlot] at h
    obtain ⟨name, -, h⟩ := h
    split at h
    · obtain ⟨index, -, rfl⟩ := Option.map_eq_some_iff.mp h
      simp
    · split at h
      · obtain ⟨index, -, rfl⟩ := Option.map_eq_some_iff.mp h
        simp
      · cases h
  simp only [mentionedSlots, bind_eq_ok] at h
  obtain ⟨loaded, hloaded, h⟩ := h
  cases h
  intro slot hslot i
  rcases List.mem_append.mp hslot with hslot | hslot
  · unfold loadedSlots at hloaded
    split at hloaded
    · split at hloaded
      · simp only [bind_eq_ok, okOr_eq_ok] at hloaded
        obtain ⟨slot', hslot', hloaded⟩ := hloaded
        cases hloaded
        rw [List.mem_singleton.mp hslot]
        exact hload hslot' i
      · split at hloaded
        · cases hloaded
          rcases List.mem_pair.mp hslot with rfl | rfl <;> simp
        · cases hloaded
          cases hslot
    · cases hloaded
      cases hslot
  · exact hwrite (Option.mem_toList.mp hslot) i

/-- The tracked slots are distinct frame slots, all arguments and locals among
them. -/
structure SlotsOk (shape : OptimizedFrameShape) (slots : List FrameSlot) : Prop where
  nodup : slots.Nodup
  frame : ∀ slot ∈ slots, ∀ i, slot ≠ .stack i
  arguments : ∀ i < shape.arguments, .argument i ∈ slots
  locals : ∀ i < shape.locals, .loc i ∈ slots

theorem trackedSlots_ok {nodes : List OptimizedNode} (h : trackedSlots shape nodes = .ok slots) :
    SlotsOk shape slots := by
  simp only [trackedSlots, bind_eq_ok] at h
  obtain ⟨mentioned, hmentioned, h⟩ := h
  cases h
  refine ⟨((OrdSet.ofList _).sorted.imp fun h => ne_of_lt h), fun slot hslot i => ?_,
    fun i hi => ?_, fun i hi => ?_⟩
  · rw [mem_elems, mem_ofList, List.mem_append, List.mem_append] at hslot
    rcases hslot with (hslot | hslot) | hslot
    · obtain ⟨j, -, rfl⟩ := List.mem_map.mp hslot
      simp
    · obtain ⟨j, -, rfl⟩ := List.mem_map.mp hslot
      simp
    · obtain ⟨l, hl, hslot⟩ := List.mem_flatten.mp hslot
      obtain ⟨n, -, hn⟩ := forall₂_mem_right (mapM_forall₂ hmentioned) hl
      exact mentionedSlots_frame hn slot hslot i
  · rw [mem_elems, mem_ofList]
    exact List.mem_append_left _ (List.mem_append_left _ (by simp [hi]))
  · rw [mem_elems, mem_ofList]
    exact List.mem_append_left _ (List.mem_append_right _ (by simp [hi]))

theorem SlotsOk.blockSlots_nodup (h : SlotsOk shape slots) (b : OptimizedBlock) :
    (blockSlots slots b).Nodup := by
  refine List.nodup_append.mpr ⟨h.nodup, ?_, ?_⟩
  · exact List.Nodup.map (fun i j hij => by simpa using hij) List.nodup_range
  · rintro slot hslot _ hstack rfl
    obtain ⟨i, -, rfl⟩ := List.mem_map.mp hstack
    exact h.frame _ hslot i rfl

/-! ## The graph -/

/-- A value that holds what a slot has on entry of the function. -/
def EntryValue (G : ScalarGraph) (slot : FrameSlot) (v : Nat) : Prop :=
  G.definitions[v]? = some ⟨.input 0 slot, .entry⟩ ∨
    G.definitions[v]? = some ⟨.input 0 slot, .block 0⟩

/-- What the pass guarantees of the graph `G` over the blocks. -/
structure GraphOf (ctx : RewriteContext) (entry : OptimizedNode) (blocks₀ blocks : List OptimizedBlock)
    (G : ScalarGraph) (exits : Exits) : Prop where
  traces : List.Forall₂ (fun b₀ b => ∃ r₀ r₁, BlockTrace ctx G exits b₀ b r₀ r₁) blocks₀ blocks
  inputs : ∀ b ∈ blocks₀, ∃ bindings, G.blockInputs.get? b.startPc = some bindings ∧
    bindings.map (·.1) = blockSlots ctx.slots b
  linked : ∀ {pc bindings}, G.blockInputs.get? pc = some bindings → ∀ {slot v},
    (slot, v) ∈ bindings → Linked G exits (predecessorsOf blocks₀ pc) pc slot v
  entry_state : ∃ state bindings, G.frameStates entry.id = some state ∧
    Captures ctx entry.pc (bindingOf bindings) [] state ∧
    ∀ {slot v}, (slot, v) ∈ bindings → EntryValue G slot v
  origin : ∀ {v : Nat} {d : Definition}, G.definitions[v]? = some d →
    (∃ pc bindings slot, d.origin = .block pc ∧ G.blockInputs.get? pc = some bindings ∧
      (slot, v) ∈ bindings) ∨
    (∃ slot, d = ⟨.input 0 slot, .entry⟩) ∨
      ∃ id ∈ blockIds blocks₀, ∃ k, d.origin = .node id k

theorem Linked.same {pc : Nat} (h : Linked g exits predecessors pc slot v) (hsame : SameGraph g G) :
    Linked G exits predecessors pc slot v := by
  rcases h with ⟨hnil, hpc, hv⟩ | ⟨inputs, hv, hphi⟩
  · exact .inl ⟨hnil, hpc, hsame.get_eq hv (by simp)⟩
  · refine .inr ⟨inputs, hsame.get_eq hv (by simp), hphi.edge, hphi.covers, fun hi hnone => ?_,
      hphi.entry_covers⟩
    obtain ⟨hpc, hentry⟩ := hphi.entry hi hnone
    exact ⟨hpc, hsame.get_eq hentry (by simp)⟩

theorem EntryValue.same (h : EntryValue g slot v) (hsame : SameGraph g G) : EntryValue G slot v :=
  h.imp (fun hv => hsame.get_eq hv (by simp)) fun hv => hsame.get_eq hv (by simp)

theorem mem_allBindings {pc : Nat} :
    (pc, slot, v) ∈ allBindings inputs.entries ↔
      ∃ bindings, inputs.get? pc = some bindings ∧ (slot, v) ∈ bindings := by
  simp only [allBindings, List.mem_flatMap, List.mem_map, Prod.mk.injEq]
  constructor
  · rintro ⟨⟨pc', bindings⟩, hmem, _, hb, rfl, rfl⟩
    exact ⟨bindings, OrdMap.mem_entries.mp hmem, hb⟩
  · rintro ⟨bindings, hget, hb⟩
    exact ⟨(pc, bindings), OrdMap.mem_entries.mpr hget, (slot, v), hb, rfl, rfl⟩

theorem allBindings_nodup
    (h : ∀ {pc bindings}, inputs.get? pc = some bindings → (bindings.map (·.1)).Nodup) :
    (allBindings inputs.entries).Nodup := by
  refine List.nodup_flatMap.mpr ⟨?_, ?_⟩
  · rintro ⟨pc, bindings⟩ hmem
    refine List.Nodup.map (fun _ _ heq => (Prod.mk.inj heq).2) ?_
    exact List.Nodup.of_map _ (h (OrdMap.mem_entries.mp hmem))
  · refine inputs.sorted.imp fun {a b} hlt => ?_
    rintro x ha hb
    obtain ⟨_, -, rfl⟩ := List.mem_map.mp ha
    obtain ⟨_, -, heq⟩ := List.mem_map.mp hb
    exact absurd (Prod.mk.inj heq).1.symm (ne_of_lt hlt)

/-- The bindings of the entry guard are values on entry of the function. -/
theorem initialValue_entry {binding binding' : FrameSlot × Nat}
    (hlinked : Linked G exits predecessors 0 binding.1 binding.2)
    (h : initialValue G binding = .ok binding') :
    binding'.1 = binding.1 ∧ EntryValue G binding'.1 binding'.2 := by
  obtain ⟨slot, v⟩ := binding
  unfold initialValue at h
  rcases hlinked with ⟨-, -, hv⟩ | ⟨inputs, hv, hphi⟩
  · have hvalue : G.value? v = some (.input 0 slot) := by rw [value?, hv]; rfl
    split at h
    · cases h
    case h_2 heq _ =>
      rw [hvalue] at heq
      cases heq
    case h_3 =>
      cases h
      exact ⟨rfl, .inr hv⟩
  · have hvalue : G.value? v = some (.phi 0 slot inputs) := by rw [value?, hv]; rfl
    split at h
    · cases h
    case h_2 heq _ =>
      rw [hvalue] at heq
      cases heq
      simp only [bind_eq_ok, okOr_eq_ok] at h
      obtain ⟨i, hi, h⟩ := h
      cases h
      have hnone := List.find?_some hi
      simp only [decide_eq_true_eq] at hnone
      exact ⟨rfl, .inl (hphi.entry (List.mem_of_find?_eq_some hi) hnone).2⟩
    case h_3 hne =>
      exact (hne _ _ _ hvalue).elim

/-- The graph with all phis, over the graph after the bodies. -/
theorem linkedOver_kept {bindings : List (Nat × FrameSlot × Nat)}
    (hready : ∀ b ∈ bindings, g.definitions[b.2.2]? = some ⟨.input b.1 b.2.1, .block b.1⟩)
    (h : LinkedOver exits blocks g bindings G) : g.Kept G := by
  intro v d hv
  by_cases hb : ∃ b ∈ bindings, b.2.2 = v
  · obtain ⟨⟨pc, slot, v'⟩, hmem, rfl⟩ := hb
    cases (hready _ hmem).symm.trans hv
    have hblock : ∀ d' : Definition, d'.origin = .block pc →
        Definition.Becomes ⟨.input pc slot, .block pc⟩ d' :=
      fun d' hd' => ⟨hd', fun hne => absurd rfl (hne pc)⟩
    rcases h.linked hmem with ⟨-, -, hG⟩ | ⟨inputs, hG, -⟩
    · exact ⟨_, hG, hblock _ rfl⟩
    · exact ⟨_, hG, hblock _ rfl⟩
  · exact ⟨d, h.others (fun b hb' heq => hb ⟨b, hb', heq⟩) hv, .refl _⟩

/-- The guarantees of `buildGraph`, for every graph that the last two steps make
of its graph. -/
theorem buildGraph_graphOf {ctx : RewriteContext} (hslots : SlotsOk ctx.shape ctx.slots)
    (hids : (entry.id :: blockIds blocks).Nodup) (hpcs : (blocks.map (·.startPc)).Nodup)
    (h : buildGraph ctx entry blocks = .ok built) (hsame : SameGraph built.graph G) :
    ∃ exits, GraphOf ctx entry blocks built.blocks G exits := by
  simp only [buildGraph, bind_eq_ok] at h
  obtain ⟨g₀, hg₀, ⟨rewritten, s⟩, hbodies, ⟨gL, edges⟩, hlinks, gE, hentry, h⟩ := h
  cases h
  obtain ⟨hinputs, hrows₀⟩ := allocateBlocks_ok hpcs hg₀
  have hbodies := collectM_eq_ok hbodies
  have hgrows := rewriteBlocks_grows hbodies
  rw [List.nodup_cons] at hids
  -- After the bodies, the inputs are where they were put.
  have hready : ∀ b ∈ allBindings s.graph.blockInputs.entries,
      s.graph.definitions[b.2.2]? = some ⟨.input b.1 b.2.1, .block b.1⟩ := by
    rintro ⟨pc, slot, v⟩ hb
    obtain ⟨bindings, hget, hmem⟩ := mem_allBindings.mp hb
    rw [hgrows.blockInputs] at hget
    exact hgrows.get (hinputs.ready hget hmem)
  have hnodup : (allBindings s.graph.blockInputs.entries).Nodup := by
    refine allBindings_nodup fun {pc bindings} hget => ?_
    rw [hgrows.blockInputs] at hget
    obtain ⟨b, -, -, hb⟩ := hinputs.owner hget
    rw [hb]
    exact hslots.blockSlots_nodup b
  rw [linkBlocks_eq] at hlinks
  have hlinked := linkAll_ok hready hnodup hlinks
  -- The entry guard fills its own row.
  simp only [captureEntry, bind_eq_ok] at hentry
  obtain ⟨initial, hinitial, hentry⟩ := hentry
  obtain ⟨state, total, hstate, rfl⟩ := captureFrame_eq_ok hentry
  have hgL : gL = { s.graph with definitions := gL.definitions } := hlinked.same
  have hinputsL : gL.blockInputs = s.graph.blockInputs := by rw [hgL]
  have hinputsG : G.blockInputs = s.graph.blockInputs := hsame.blockInputs.trans hinputsL
  have hrow : ∀ id, id ≠ entry.id → G.row id = s.graph.row id := by
    intro id hid
    have hL : gL.row id = s.graph.row id := by
      rw [hgL]
      rfl
    rw [hsame.row, ← hL]
    simp [row, Function.update_of_ne hid]
  have hlinkedL : ∀ {pc bindings}, s.graph.blockInputs.get? pc = some bindings → ∀ {slot v},
      (slot, v) ∈ bindings → Linked gL s.exits (predecessorsOf blocks pc) pc slot v :=
    fun hget _ _ hmem => hlinked.linked (mem_allBindings.mpr ⟨_, hget, hmem⟩)
  refine ⟨s.exits, ⟨?_, ?_, ?_, ?_, ?_⟩⟩
  · refine rewriteBlocks_traces hbodies hids.2 hpcs (fun id _ => hrows₀ id) (fun id _ v d hv k => ?_)
      ((linkedOver_kept hready hlinked).trans hsame.kept) hinputsG (fun id hid => ?_)
      fun id _ v d k hv hk => ?_
    · obtain ⟨pc, -, -, hpc, -⟩ := hinputs.origin hv
      rw [hpc]
      simp
    · exact hrow id fun heq => hids.1 (heq ▸ hid)
    · obtain ⟨d₀, hd₀, horigin, -⟩ := hsame.get_origin hv
      rcases hlinked.added hd₀ with hlt | ⟨slot, rfl⟩
      · exact hlt
      · cases horigin.symm.trans hk
  · intro b hb
    rw [hinputsG, hgrows.blockInputs]
    exact hinputs.get b hb
  · intro pc bindings hget slot v hmem
    rw [hinputsG] at hget
    refine Linked.same ?_ hsame
    exact (hlinkedL hget hmem).mono fun _ hu => hu
  · refine ⟨state, initial, ?_, hstate, fun {slot v} hmem => ?_⟩
    · exact (congrArg (·.1) (hsame.row entry.id)).trans (Function.update_self ..)
    · obtain ⟨binding, hbinding, hvalue⟩ := forall₂_mem_right (mapM_forall₂ hinitial) hmem
      have hget : ∃ bindings, s.graph.blockInputs.get? 0 = some bindings ∧ binding ∈ bindings := by
        rw [inputsForBlock, hinputsL] at hbinding
        cases hb : s.graph.blockInputs.get? 0 with
        | none =>
          rw [hb] at hbinding
          cases hbinding
        | some bindings =>
          rw [hb] at hbinding
          exact ⟨bindings, rfl, hbinding⟩
      obtain ⟨bindings, hget, hmem⟩ := hget
      refine EntryValue.same ?_ hsame
      exact (initialValue_entry (hlinkedL hget hmem) hvalue).2
  · intro v d hv
    obtain ⟨d₀, hd₀, horigin, -⟩ := hsame.get_origin hv
    rw [hinputsG, hgrows.blockInputs]
    rcases hlinked.added hd₀ with hlt | ⟨slot, rfl⟩
    · have hS := List.getElem?_eq_getElem hlt
      obtain ⟨d₁, hd₁, hbecomes⟩ := linkedOver_kept hready hlinked _ _ hS
      cases hd₁.symm.trans hd₀
      rw [horigin, hbecomes.origin]
      rcases hgrows.origin hS with hold | hnew
      · exact .inl (hinputs.origin hold)
      · exact .inr (.inr hnew)
    · refine .inr (.inl ⟨slot, ?_⟩)
      exact Option.some.inj (hv.symm.trans (hsame.get_eq hd₀ (by simp)))

/-- The guarantees of `ScalarGraph::rewrite`. -/
theorem ScalarGraph.rewrite_graphOf {modes : OrdMap Nat ScalarNumericMode}
    {inlineCallees : OrdMap Nat InlineCallee} (hids : (entry.id :: blockIds blocks).Nodup)
    (hpcs : (blocks.map (·.startPc)).Nodup)
    (h : rewrite shape modes inlineCallees entry blocks = .ok built) :
    ∃ slots exits, SlotsOk shape slots ∧
      GraphOf ⟨slots, shape, modes, inlineCallees⟩ entry blocks built.blocks built.graph exits := by
  simp only [rewrite, bind_eq_ok] at h
  obtain ⟨slots, hslots, built₀, hbuilt, g, hchecks, h⟩ := h
  cases h
  have hok := trackedSlots_ok hslots
  have hsame : SameGraph built₀.graph g := by
    refine SameGraph.trans ?_ (buildNumericChecks_same hchecks)
    split
    · exact specializeIntegerUpdates_same ..
    · exact .of_checks rfl
  obtain ⟨exits, hgraph⟩ := buildGraph_graphOf hok hids hpcs hbuilt hsame
  exact ⟨slots, exits, hok, hgraph⟩

end QuickJit
