import QuickJit.Bytecode.CfgFacts
import QuickJit.Bytecode.Joins

/-
  What one instruction, one edge and one block do to the worklist.

  `InstructionRun` and `EdgeRun` are the exact effects of `proveInstruction`
  and `proveEdge`; `BodyRun` collects the first over the instructions of a
  block. States inside a block are named by position: `stateAt body n E` is the
  state before instruction `n` of a block entered with `E`.
-/

namespace QuickJit

open Outcome

variable {s s' : AbstractState} {snapshot : CompileSnapshot} {i tail : Instruction}
  {successor : Nat} {ctx : ProveContext} {p p' : Proving}

/-- Run `transfer` over a list of instructions. -/
def transferAll (snapshot : CompileSnapshot) (is : List Instruction) (s : AbstractState) :
    VerifyOutcome AbstractState :=
  is.foldlM (fun s i => transfer snapshot i s) s

/-- The state before instruction `n` of a block entered with `s`. -/
def stateAt (snapshot : CompileSnapshot) (body : List Instruction) (n : Nat) (s : AbstractState) :
    VerifyOutcome AbstractState :=
  transferAll snapshot (body.take n) s

theorem transferAll_concat {is : List Instruction} :
    transferAll snapshot (is ++ [i]) s = .ok s' ↔
      ∃ t, transferAll snapshot is s = .ok t ∧ transfer snapshot i t = .ok s' := by
  simp [transferAll, List.foldlM_append, bind_eq_ok]

theorem transferAll_sameShape {is : List Instruction} :
    ∀ {s t s' t' : AbstractState}, s.SameShape t → transferAll snapshot is s = .ok s' →
      transferAll snapshot is t = .ok t' → s'.SameShape t' := by
  unfold transferAll
  induction is with
  | nil =>
    intro s t s' t' h hs ht
    rw [List.foldlM_nil, pure_eq_ok] at hs ht
    subst hs ht
    exact h
  | cons i rest ih =>
    intro s t s' t' h hs ht
    rw [List.foldlM_cons, bind_eq_ok] at hs ht
    obtain ⟨s₁, hs₁, hs⟩ := hs
    obtain ⟨t₁, ht₁, ht⟩ := ht
    exact ih (transfer_sameShape h hs₁ ht₁) hs ht

theorem stateAt_succ {body : List Instruction} {n : Nat} (hi : body[n]? = some i) :
    stateAt snapshot body (n + 1) s = .ok s' ↔
      ∃ t, stateAt snapshot body n s = .ok t ∧ transfer snapshot i t = .ok s' := by
  have htake : body.take (n + 1) = body.take n ++ [i] := by
    rw [List.take_add_one, hi]
    rfl
  rw [stateAt, htake, transferAll_concat]
  rfl

/-! ## One instruction -/

/-- The handler's entry covers the locals of a state that can raise into it. -/
def HandlerLocals (entries : OrdMap Nat AbstractState) (s : AbstractState) : Prop :=
  ∀ index handlerPc, s.innermostHandler = some (index, handlerPc) →
    ∃ H, entries.get? handlerPc = some H ∧
      KindsRelated (fun a b => SlotKind.Covers b a) s.locals H.locals

theorem HandlerLocals.grows {New : AbstractState → Prop} (h : HandlerLocals p.entries s)
    (hgrows : Grows New p p') : HandlerLocals p'.entries s := by
  intro index handlerPc hhandler
  obtain ⟨H, hH, hcov⟩ := h index handlerPc hhandler
  obtain ⟨H', hH', hw⟩ := hgrows.entries hH
  exact ⟨H', hH', hcov.covers_trans hw.locals⟩

/-- What `proveInstruction` does. -/
structure InstructionRun (ctx : ProveContext) (i : Instruction) (p : Proving) (s : AbstractState)
    (p' : Proving) (s' : AbstractState) : Prop where
  transfer : transfer ctx.snapshot i s = .ok s'
  grows : Grows (fun _ => False) p p'
  handler : HandlerLocals p'.entries s
  steps : p'.steps = p.steps ++ [⟨i, s, s'⟩]
  visited : p'.visited = p.visited.insert i.pc
  handlers : p'.handlers = (recordVisit i s p).handlers
  before : p'.before = if i.pc ∈ ctx.beforePoints then p.before.insert i.pc s else p.before

theorem charge_eq_ok {pc units : Nat} (h : charge ctx pc units p = .ok p') :
    ∃ used, p' = { p with used } := by
  unfold charge at h
  rw [ite_reject_eq_ok] at h
  exact ⟨_, (Except.ok.inj h.2).symm⟩

theorem recordBefore_eq_ok (h : recordBefore ctx i s p = .ok p') :
    ∃ used, p' = { p with
      used
      before := if i.pc ∈ ctx.beforePoints then p.before.insert i.pc s else p.before } := by
  unfold recordBefore at h
  split at h
  case isTrue hmem =>
    obtain ⟨p₁, hp₁, h⟩ := bind_eq_ok.mp h
    obtain ⟨used, rfl⟩ := charge_eq_ok hp₁
    cases h
    exact ⟨used, by simp [hmem]⟩
  case isFalse hmem =>
    cases h
    exact ⟨p.used, by simp [hmem]⟩

theorem recordAfter_eq_ok (h : recordAfter ctx i s p = .ok p') :
    ∃ used after, p' = { p with used, after } := by
  unfold recordAfter at h
  split at h
  · obtain ⟨p₁, hp₁, h⟩ := bind_eq_ok.mp h
    obtain ⟨used, rfl⟩ := charge_eq_ok hp₁
    cases h
    exact ⟨used, _, rfl⟩
  · cases h
    exact ⟨p.used, p.after, rfl⟩

/-- What `joinHandler` does to everything but the entries and the queue. -/
theorem joinHandler_eq_ok (h : joinHandler ctx i s p = .ok p') :
    Grows (fun _ => False) p p' ∧ HandlerLocals p'.entries s ∧ p'.steps = p.steps ∧
      p'.visited = p.visited ∧ p'.handlers = p.handlers ∧ p'.before = p.before := by
  unfold joinHandler at h
  split at h
  case h_1 hnone =>
    cases h
    refine ⟨.refl, ?_, rfl, rfl, rfl, rfl⟩
    intro index handlerPc hsome
    rw [hnone] at hsome
    cases hsome
  case h_2 index handlerPc hhandler =>
    simp only [bind_eq_ok, okOr_eq_ok] at h
    obtain ⟨p₁, hp₁, expected, hexpected, joined, hjoined, h⟩ := h
    obtain ⟨used, rfl⟩ := charge_eq_ok hp₁
    cases h
    have hjoins := joinHandlerLocals_joins hjoined
    have hgrows : Grows (fun _ => False) { p with used }
        (updateEntry { p with used } handlerPc joined) := updateEntry_grows hexpected hjoins
    refine ⟨hgrows.charged, ?_, rfl, rfl, rfl, rfl⟩
    intro index' handlerPc' hhandler'
    rw [hhandler] at hhandler'
    cases hhandler'
    exact ⟨joined.1, OrdMap.get?_insert_self .., hjoins.covers⟩

theorem proveInstruction_run (h : proveInstruction ctx (p, s) i = .ok (p', s')) :
    InstructionRun ctx i p s p' s' := by
  simp only [proveInstruction, bind_eq_ok] at h
  obtain ⟨p₁, hp₁, p₂, hp₂, p₃, hp₃, s₁, hs₁, p₄, hp₄, h⟩ := h
  cases h
  obtain ⟨used₁, rfl⟩ := charge_eq_ok hp₁
  obtain ⟨used₂, rfl⟩ := recordBefore_eq_ok hp₂
  obtain ⟨hgrows, hhandler, hsteps, hvisited, hhandlers, hbefore⟩ := joinHandler_eq_ok hp₃
  obtain ⟨used₄, after, rfl⟩ := recordAfter_eq_ok hp₄
  exact {
    transfer := hs₁
    grows := ⟨hgrows.entries, hgrows.source, hgrows.queue, hgrows.changed⟩
    handler := hhandler
    steps := by simp only [hsteps]; rfl
    visited := hvisited
    handlers := hhandlers
    before := hbefore }

/-! ## One edge -/

/-- A successor's entry covers what the edge brings. -/
def EdgeCovered (entries : OrdMap Nat AbstractState) (tail : Instruction) (s : AbstractState)
    (successor : Nat) : Prop :=
  ∃ S, entries.get? successor = some S ∧
    if catchTarget tail = some successor then
      ∃ c, caughtState successor s = some c ∧ c.Below S ∧ S.stack = c.stack
    else s.Below S

/-- Entries an edge may create: those with the stack and catches of the state
at the end of the block, or with its top catch offset caught. -/
structure EdgeEntry (s E : AbstractState) : Prop where
  locals : E.locals.length = s.locals.length
  frame : (E.stack = s.stack ∧ E.catches = s.catches) ∨
    s.stack.getLast? = some .catchOffset ∧ s.catches ≠ [] ∧
      E.stack = s.stack.dropLast ++ [.tagged] ∧ E.catches = s.catches.dropLast

theorem EdgeEntry.widens {E E' : AbstractState} (h : EdgeEntry s E) (hw : Widens E E') :
    EdgeEntry s E' := by
  refine ⟨hw.locals.length_eq.symm.trans h.locals, ?_⟩
  rw [hw.stack, hw.catches]
  exact h.frame

theorem EdgeCovered.grows {New : AbstractState → Prop} (h : EdgeCovered p.entries tail s successor)
    (hgrows : Grows New p p') : EdgeCovered p'.entries tail s successor := by
  obtain ⟨S, hS, hcov⟩ := h
  obtain ⟨S', hS', hw⟩ := hgrows.entries hS
  refine ⟨S', hS', ?_⟩
  split at hcov
  case isTrue hcatch =>
    obtain ⟨c, hc, hbelow, hstack⟩ := hcov
    rw [if_pos hcatch]
    exact ⟨c, hc, hbelow.trans hw.below, hw.stack.trans hstack⟩
  case isFalse hcatch =>
    rw [if_neg hcatch]
    exact hcov.trans hw.below

/-- What `proveEdge` does. -/
structure EdgeRun (tail : Instruction) (s : AbstractState) (successor : Nat) (p p' : Proving) :
    Prop where
  grows : Grows (EdgeEntry s) p p'
  covered : EdgeCovered p'.entries tail s successor
  steps : p'.steps = p.steps
  visited : p'.visited = p.visited
  handlers : p'.handlers = p.handlers
  before : p'.before = p.before

theorem caughtState_eq_some {c : AbstractState} (h : caughtState successor s = some c) :
    c = { s with stack := s.stack.dropLast ++ [.tagged], catches := s.catches.dropLast } ∧
      s.stack.getLast? = some .catchOffset ∧
      ∃ index, s.catches.getLast? = some (index, some successor) := by
  unfold caughtState at h
  split at h
  case isTrue hc =>
    cases h
    refine ⟨rfl, hc.1, ?_⟩
    cases hlast : s.catches.getLast? with
    | none => simp [hlast] at hc
    | some last =>
      have hhandler : last.2 = some successor := by simpa [hlast] using hc.2
      exact ⟨last.1, by rw [← hhandler]⟩
  case isFalse => cases h

theorem catchEdge_run (hcatch : catchTarget tail = some successor)
    (h : catchEdge ctx tail s p successor = .ok p') : EdgeRun tail s successor p p' := by
  simp only [catchEdge, bind_eq_ok, okOr_eq_ok] at h
  obtain ⟨c, hc, p₁, hp₁, h⟩ := h
  obtain ⟨used, rfl⟩ := charge_eq_ok hp₁
  obtain ⟨hceq, htop, index, hlast⟩ := caughtState_eq_some hc
  have hne : s.catches ≠ [] := by
    intro h0
    simp [h0] at hlast
  have hentry : EdgeEntry s c := by
    rw [hceq]
    exact ⟨rfl, .inr ⟨htop, hne, rfl, rfl⟩⟩
  split at h
  case h_1 expected hexpected =>
    rw [ite_reject_eq_ok, not_or, not_not, not_not] at h
    obtain ⟨⟨hstack, hcatches⟩, h⟩ := h
    obtain ⟨joined, hjoined, h⟩ := bind_eq_ok.mp h
    cases h
    have hjoins := joinHandlerLocals_joins hjoined
    refine ⟨(updateEntry_grows hexpected hjoins).charged, ?_,
      rfl, rfl, rfl, rfl⟩
    refine ⟨joined.1, OrdMap.get?_insert_self .., ?_⟩
    rw [if_pos hcatch]
    have hS : joined.1.stack = c.stack := hjoins.widens.stack.trans hstack
    exact ⟨c, hc, ⟨hjoins.covers, hS ▸ KindsRelated.covers_refl _,
      hcatches.symm.trans hjoins.widens.catches.symm⟩, hS⟩
  case h_2 hexpected =>
    cases h
    refine ⟨(newEntry_grows hexpected hentry).charged, ?_,
      rfl, rfl, rfl, rfl⟩
    refine ⟨c, OrdMap.get?_insert_self .., ?_⟩
    rw [if_pos hcatch]
    exact ⟨c, hc, .refl _, rfl⟩

theorem edgeState_widens (cfg : ControlFlowGraph) (successor : Nat) (s : AbstractState) :
    Widens s (edgeState cfg successor s) := by
  unfold edgeState
  split
  · refine ⟨rfl, rfl, List.forall₂_map_right_iff.mpr (List.forall₂_same.mpr fun k _ => ?_)⟩
    cases k <;> decide
  · exact .refl s

theorem ordinaryEdge_run (hcatch : catchTarget tail ≠ some successor)
    (hlocals : ∀ {pc E}, p.entries.get? pc = some E → E.locals.length = s.locals.length)
    (h : ordinaryEdge ctx s p successor = .ok p') : EdgeRun tail s successor p p' := by
  simp only [ordinaryEdge, bind_eq_ok] at h
  obtain ⟨p₁, hp₁, h⟩ := h
  obtain ⟨used, rfl⟩ := charge_eq_ok hp₁
  have hw := edgeState_widens ctx.cfg successor s
  split at h
  case h_1 expected hexpected =>
    obtain ⟨joined, hjoined, h⟩ := bind_eq_ok.mp h
    cases h
    obtain ⟨hjoins, hstack, hcatches⟩ :=
      mergeState_joins ((hlocals hexpected).trans hw.locals.length_eq) hjoined
    refine ⟨(updateEntry_grows hexpected hjoins).charged, ?_,
      rfl, rfl, rfl, rfl⟩
    refine ⟨joined.1, OrdMap.get?_insert_self .., ?_⟩
    rw [if_neg hcatch]
    have hS : joined.1.stack = (edgeState ctx.cfg successor s).stack :=
      hjoins.widens.stack.trans hstack
    exact hw.below.trans ⟨hjoins.covers, hS ▸ KindsRelated.covers_refl _,
      hcatches.symm.trans hjoins.widens.catches.symm⟩
  case h_2 hexpected =>
    cases h
    have hentry : EdgeEntry s (edgeState ctx.cfg successor s) :=
      ⟨hw.locals.length_eq.symm, .inl ⟨hw.stack, hw.catches⟩⟩
    refine ⟨(newEntry_grows hexpected hentry).charged, ?_,
      rfl, rfl, rfl, rfl⟩
    refine ⟨_, OrdMap.get?_insert_self .., ?_⟩
    rw [if_neg hcatch]
    exact hw.below

theorem proveEdge_run
    (hlocals : ∀ {pc E}, p.entries.get? pc = some E → E.locals.length = s.locals.length)
    (h : proveEdge ctx tail s p successor = .ok p') : EdgeRun tail s successor p p' := by
  unfold proveEdge at h
  split at h
  case isTrue hcatch => exact catchEdge_run hcatch h
  case isFalse hcatch => exact ordinaryEdge_run hcatch hlocals h

end QuickJit
