import QuickJit.Bytecode.Verify
import QuickJit.Bytecode.Worklist

/-
  The worklist ends in a fixpoint.

  `Invariant` holds before every turn of the worklist: every entry is a state
  the interpreter's unwinder can work with (`StateOk`), every transfer that was
  run is at a known place (`Tracked`), and a block whose entry is not queued is
  `Closed`: run from that entry it steps to its end, and what it hands to its
  handlers and successors is covered by their entries. When the queue is empty
  every block is closed.
-/

namespace QuickJit

open Outcome

open AbstractState (WellNested SameShape)

variable {body is pre : List Instruction} {successors : List Nat} {handlerPc index : Nat}
  {ctx : ProveContext} {p' : Proving}

variable {E s s' t : AbstractState} {New : AbstractState → Prop} {b : BasicBlock} {i : Instruction}
  {n : Nat} {entries : OrdMap Nat AbstractState}

theorem sameShape_iff : s.SameShape t ↔
    s.locals.length = t.locals.length ∧ s.stack.length = t.stack.length ∧
      s.catches = t.catches := by
  have hlen : ∀ {l l' : List SlotKind},
      KindsRelated (fun _ _ => True) l l' ↔ l.length = l'.length := by
    intro l l'
    refine ⟨fun h => h.length_eq, fun h => ?_⟩
    exact List.forall₂_of_length_eq_of_get h fun _ _ _ => trivial
  constructor
  · exact fun h => ⟨hlen.mp h.locals, hlen.mp h.stack, h.catches⟩
  · exact fun ⟨hl, hs, hc⟩ => ⟨hlen.mpr hl, hlen.mpr hs, hc⟩

theorem innermostHandler_congr (h : s.catches = t.catches) :
    s.innermostHandler = t.innermostHandler := by
  simp only [AbstractState.innermostHandler, h]

theorem innermostCatch_congr (h : s.catches = t.catches) :
    s.innermostCatch = t.innermostCatch := by
  simp only [AbstractState.innermostCatch, innermostHandler_congr h, h]

theorem mem_of_innermostHandler (h : s.innermostHandler = some (index, handlerPc)) :
    (index, some handlerPc) ∈ s.catches := by
  obtain ⟨⟨index', handler⟩, hmem, hc⟩ := List.exists_of_findSome?_eq_some h
  obtain ⟨pc, hpc, heq⟩ := Option.map_eq_some_iff.mp hc
  cases heq
  dsimp only at hpc
  subst hpc
  exact List.mem_reverse.mp hmem

/-! ## States the unwinder can work with -/

/-- Each live handler has an entry: the stack below its catch offset with the
caught value on top, and the catches below. -/
def HandlerEntries (entries : OrdMap Nat AbstractState) (s : AbstractState) : Prop :=
  ∀ index handlerPc, (index, some handlerPc) ∈ s.catches →
    ∃ H, entries.get? handlerPc = some H ∧ H.stack = s.stack.take index ++ [.tagged] ∧
      H.catches = s.catches.filter fun c => decide (c.1 < index)

structure StateOk (ctx : ProveContext) (entries : OrdMap Nat AbstractState) (s : AbstractState) :
    Prop where
  nested : WellNested s
  handlers : HandlerEntries entries s
  locals : s.locals.length = ctx.snapshot.localCount.toNat
  stack : s.stack.length ≤ ctx.snapshot.stackSize.toNat

theorem HandlerEntries.grows {p : Proving} (h : HandlerEntries p.entries s)
    (hgrows : Grows New p p') : HandlerEntries p'.entries s := by
  intro index handlerPc hmem
  obtain ⟨H, hH, hstack, hcatches⟩ := h index handlerPc hmem
  obtain ⟨H', hH', hw⟩ := hgrows.entries hH
  exact ⟨H', hH', hw.stack.trans hstack, hw.catches.trans hcatches⟩

theorem StateOk.grows {p : Proving} (h : StateOk ctx p.entries s) (hgrows : Grows New p p') :
    StateOk ctx p'.entries s :=
  ⟨h.nested, h.handlers.grows hgrows, h.locals, h.stack⟩

theorem StateOk.widens (h : StateOk ctx entries s) (hw : Widens s t) :
    StateOk ctx entries t where
  nested := ⟨hw.catches ▸ h.nested.sorted, by rw [hw.catches, hw.stack]; exact h.nested.below⟩
  handlers := by
    intro index handlerPc hmem
    rw [hw.catches] at hmem ⊢
    rw [hw.stack]
    exact h.handlers index handlerPc hmem
  locals := hw.locals.length_eq.symm.trans h.locals
  stack := hw.stack ▸ h.stack

theorem transferLocals_length {l m : List SlotKind} {top : SlotKind}
    (h : transferLocals i l top = .ok m) : m.length = l.length := by
  have hset : ∀ {index : Option Nat} {kind : SlotKind}, setLocal l index kind = .ok m →
      m.length = l.length := by
    intro index kind hset
    unfold setLocal at hset
    split at hset
    · split at hset
      · cases hset
        exact List.length_set
      · cases hset
    · cases hset
  unfold transferLocals at h
  split at h
  case isTrue => exact hset h
  case isFalse =>
  split at h
  case isTrue => exact hset h
  case isFalse =>
  split at h
  case isTrue => exact hset h
  case isFalse => cases h; rfl

theorem transfer_locals_length {snapshot : CompileSnapshot} (h : transfer snapshot i s = .ok s') :
    s'.locals.length = s.locals.length := by
  cases (transfer_eq_ok.mp h).2.2 with
  | nipCatch _ hnip =>
    obtain ⟨_, _, _, -, -, -, rfl⟩ := hnip
    rfl
  | next => rfl
  | load => rfl
  | push _ _ _ hlocals => exact transferLocals_length hlocals

/-- A handler that was live before an instruction and still is keeps its entry;
a handler that becomes live is that of a `catch`, on top of the stack. -/
theorem Reshapes.handler_cases {kept : Nat} {pushed : List SlotKind} {live : Option (Option Nat)}
    (h : Reshapes i s s' kept pushed live) (hs : HandlerEntries entries s)
    (hmem : (index, some handlerPc) ∈ s'.catches) :
    (∃ H, entries.get? handlerPc = some H ∧ H.stack = s'.stack.take index ++ [.tagged] ∧
      H.catches = s'.catches.filter fun c => decide (c.1 < index)) ∨
    i.name = .catchOp ∧ i.targetPc = some handlerPc ∧ index + 1 = s'.stack.length := by
  have hlen : s'.stack.length = kept + pushed.length := by
    rw [h.stack, List.length_append, List.length_take, Nat.min_eq_left h.kept_le]
  rw [h.catches, List.mem_append] at hmem
  rcases hmem with hold | hnew
  · obtain ⟨hold, hlt⟩ := List.mem_filter.mp hold
    simp only [decide_eq_true_eq] at hlt
    obtain ⟨H, hH, hstack, hcatches⟩ := hs index handlerPc hold
    refine .inl ⟨H, hH, ?_, ?_⟩
    · rw [hstack, h.stack, List.take_append_of_le_length (by simp; have := h.kept_le; omega),
        List.take_take, Nat.min_eq_left (by omega)]
    · rw [hcatches, h.catches, List.filter_append, List.filter_filter]
      have hnone : (liveEntry (kept + pushed.length) live).filter
          (fun c => decide (c.1 < index)) = [] := by
        cases live with
        | none => rfl
        | some handler =>
          have := List.length_pos_iff.mpr (h.pushed_ne rfl)
          simp only [liveEntry, List.filter_singleton]
          rw [decide_eq_false (by omega)]
          rfl
      rw [hnone, List.append_nil]
      refine List.filter_congr fun c _ => ?_
      by_cases hc : c.1 < index
      · simp [hc]; omega
      · simp [hc]
  · cases live with
    | none => cases hnew
    | some handler =>
      rw [liveEntry, List.mem_singleton] at hnew
      cases hnew
      obtain ⟨hname, htarget, hpushed⟩ := h.handler rfl
      refine .inr ⟨hname, htarget, ?_⟩
      rw [hlen, hpushed]
      simp

theorem StateOk.transfer (hs : StateOk ctx entries s) (hbranch : i.branchTarget = none)
    (h : QuickJit.transfer ctx.snapshot i s = .ok s') :
    StateOk ctx entries s' := by
  obtain ⟨kept, pushed, live, hshape⟩ := transfer_reshapes hs.nested h
  refine ⟨hshape.wellNested hs.nested, ?_, (transfer_locals_length h).trans hs.locals,
    transfer_stack_le h⟩
  intro index handlerPc hmem
  rcases hshape.handler_cases hs.handlers hmem with hold | ⟨-, htarget, -⟩
  · exact hold
  · rw [Instruction.targetPc, hbranch] at htarget
    cases htarget

theorem stateAt_ok (hE : StateOk ctx entries E) :
    ∀ {n : Nat} {A : AbstractState}, n ≤ body.length →
      (∀ k i, k < n → body[k]? = some i → i.branchTarget = none) →
      stateAt ctx.snapshot body n E = .ok A → StateOk ctx entries A
  | 0, A, _, _, h => by
    simp only [stateAt, transferAll, List.take_zero, List.foldlM_nil, pure_eq_ok] at h
    exact h ▸ hE
  | n + 1, A, hn, hbranch, h => by
    obtain ⟨i, hi⟩ : ∃ i, body[n]? = some i := ⟨_, List.getElem?_eq_getElem hn⟩
    obtain ⟨t, ht, hstep⟩ := (stateAt_succ hi).mp h
    exact (stateAt_ok hE (by omega) (fun k j hk => hbranch k j (by omega)) ht).transfer
      (hbranch n i (by omega) hi) hstep

/-! ## The instructions of a block -/

/-- The step is one of those that run `body` from `E`. -/
def StepOf (ctx : ProveContext) (body : List Instruction) (E : AbstractState)
    (step : TransferStep) : Prop :=
  transfer ctx.snapshot step.instruction step.before = .ok step.after ∧
    ∃ n, body[n]? = some step.instruction ∧ stateAt ctx.snapshot body n E = .ok step.before

theorem StepOf.append {rest : List Instruction} {step : TransferStep} (h : StepOf ctx body E step) :
    StepOf ctx (body ++ rest) E step := by
  obtain ⟨htransfer, n, hn, hstate⟩ := h
  have hlt : n < body.length := (List.getElem?_eq_some_iff.mp hn).1
  refine ⟨htransfer, n, ?_, ?_⟩
  · rw [List.getElem?_append_left hlt]
    exact hn
  · rw [stateAt, List.take_append_of_le_length (by omega)]
    exact hstate

/-- What running the instructions `body` from `E` does. -/
structure BodyRun (ctx : ProveContext) (body : List Instruction) (E : AbstractState)
    (p p' : Proving) (s : AbstractState) : Prop where
  state : transferAll ctx.snapshot body E = .ok s
  grows : Grows (fun _ => False) p p'
  points : ∀ n i, body[n]? = some i → ∃ A A', stateAt ctx.snapshot body n E = .ok A ∧
    transfer ctx.snapshot i A = .ok A' ∧ ⟨i, A, A'⟩ ∈ p'.steps ∧ HandlerLocals p'.entries A ∧
    (i.pc ∈ ctx.beforePoints → p'.before.get? i.pc = some A)
  steps : ∀ step ∈ p.steps, step ∈ p'.steps
  source : ∀ step ∈ p'.steps, step ∈ p.steps ∨ StepOf ctx body E step
  before : ∀ pc, (∀ i ∈ body, i.pc ≠ pc) → p'.before.get? pc = p.before.get? pc

theorem BodyRun.nil (ctx : ProveContext) (E : AbstractState) (p : Proving) :
    BodyRun ctx [] E p p E :=
  ⟨rfl, .refl, fun _ _ h => by simp at h, fun _ h => h, fun _ h => .inl h, fun _ _ => rfl⟩

theorem BodyRun.concat {p p'' : Proving} (h : BodyRun ctx pre E p p' s)
    (hi : InstructionRun ctx i p' s p'' s') (hpc : ∀ j ∈ pre, j.pc ≠ i.pc) :
    BodyRun ctx (pre ++ [i]) E p p'' s' where
  state := transferAll_concat.mpr ⟨s, h.state, hi.transfer⟩
  grows := h.grows.trans (fun h _ => h) hi.grows
  points n j hj := by
    rcases Nat.lt_trichotomy n pre.length with hn | rfl | hn
    · rw [List.getElem?_append_left hn] at hj
      obtain ⟨A, A', hA, hA', hstep, hlocals, hbefore⟩ := h.points n j hj
      have hne : i.pc ≠ j.pc := fun heq => hpc j (List.mem_of_getElem? hj) heq.symm
      refine ⟨A, A', ?_, hA', ?_, hlocals.grows hi.grows, fun hmem => ?_⟩
      · rw [stateAt, List.take_append_of_le_length (by omega)]
        exact hA
      · rw [hi.steps]
        exact List.mem_append_left _ hstep
      · rw [hi.before]
        split
        · rw [OrdMap.get?_insert_ne _ _ hne]
          exact hbefore hmem
        · exact hbefore hmem
    · rw [List.getElem?_concat_length, Option.some.injEq] at hj
      subst hj
      refine ⟨s, s', ?_, hi.transfer, by rw [hi.steps]; simp, hi.handler, fun hmem => ?_⟩
      · rw [stateAt, List.take_append_of_le_length le_rfl, List.take_length]
        exact h.state
      · rw [hi.before, if_pos hmem, OrdMap.get?_insert_self]
    · rw [List.getElem?_eq_none (by simp; omega)] at hj
      cases hj
  steps step hstep := by
    rw [hi.steps]
    exact List.mem_append_left _ (h.steps step hstep)
  source step hstep := by
    rw [hi.steps, List.mem_append, List.mem_singleton] at hstep
    rcases hstep with hstep | rfl
    · exact (h.source step hstep).imp_right StepOf.append
    · refine .inr ⟨hi.transfer, pre.length, by simp, ?_⟩
      rw [stateAt, List.take_left']
      · exact h.state
      · rfl
  before pc hother := by
    rw [← h.before pc fun j hj => hother j (List.mem_append_left _ hj), hi.before]
    split
    · exact OrdMap.get?_insert_ne _ _ (hother i (by simp))
    · rfl

/-! ## Where the transfers were run -/

/-- Every transfer that was run belongs to a place of a block, with a state of
the shape that the block's entry gives that place, and the recorded catch
offsets are those of the states. -/
structure Tracked (ctx : ProveContext) (p : Proving) : Prop where
  located : ∀ step ∈ p.steps, ∃ b n E₀ E, b ∈ ctx.cfg.blocks ∧
    (b.instructions ctx.instructions)[n]? = some step.instruction ∧
    p.entries.get? b.startPc = some E ∧ E₀.SameShape E ∧
    stateAt ctx.snapshot (b.instructions ctx.instructions) n E₀ = .ok step.before ∧
    transfer ctx.snapshot step.instruction step.before = .ok step.after
  handlers : ∀ step ∈ p.steps,
    p.handlers.get? step.instruction.pc = step.before.innermostCatch
  handled : ∀ pc h, p.handlers.get? pc = some h → ∃ step ∈ p.steps, step.instruction.pc = pc
  visited : ∀ pc ∈ p.visited, ∃ step ∈ p.steps, step.instruction.pc = pc

theorem Tracked.of_grows {p : Proving} (h : Tracked ctx p) (hgrows : Grows New p p')
    (hsteps : p'.steps = p.steps) (hvisited : p'.visited = p.visited)
    (hhandlers : p'.handlers = p.handlers) :
    Tracked ctx p' where
  located step hstep := by
    obtain ⟨b, n, E₀, E, hb, hi, hE, hshape, hat⟩ := h.located step (hsteps ▸ hstep)
    obtain ⟨E', hE', hw⟩ := hgrows.entries hE
    rw [sameShape_iff] at hshape
    refine ⟨b, n, E₀, E', hb, hi, hE', ?_, hat⟩
    rw [sameShape_iff, ← hw.locals.length_eq, hw.stack, hw.catches]
    exact hshape
  handlers step hstep := by
    rw [hhandlers]
    exact h.handlers step (hsteps ▸ hstep)
  handled pc handler hget := by
    rw [hsteps]
    exact h.handled pc handler (hhandlers ▸ hget)
  visited pc hpc := by
    rw [hsteps]
    exact h.visited pc (hvisited ▸ hpc)

theorem BasicBlock.getElem?_instructions (h : (b.instructions is)[n]? = some i) :
    is[b.first + n]? = some i ∧ b.first + n < b.last := by
  unfold BasicBlock.instructions at h
  have hn : n < b.last - b.first := by
    have := (List.getElem?_eq_some_iff.mp h).1
    simp only [List.length_take, List.length_drop] at this
    omega
  rw [List.getElem?_take_of_lt hn, List.getElem?_drop] at h
  exact ⟨h, by omega⟩

/-- Instructions at one pc are at one place. -/
theorem same_place {cfg : ControlFlowGraph} (hcfg : cfg.Ok is)
    (hsorted : is.Pairwise (fun a b => a.nextPc ≤ b.pc ∧ a.pc < b.pc)) {b' : BasicBlock}
    (hb : b ∈ cfg.blocks) (hb' : b' ∈ cfg.blocks) {n' : Nat} {i' : Instruction}
    (hi : (b.instructions is)[n]? = some i) (hi' : (b'.instructions is)[n']? = some i')
    (hpc : i.pc = i'.pc) : b = b' ∧ n = n' := by
  obtain ⟨hi, hlast⟩ := BasicBlock.getElem?_instructions hi
  obtain ⟨hi', hlast'⟩ := BasicBlock.getElem?_instructions hi'
  have hpos : b.first + n = b'.first + n' := by
    obtain ⟨hlt, rfl⟩ := List.getElem?_eq_some_iff.mp hi
    obtain ⟨hlt', rfl⟩ := List.getElem?_eq_some_iff.mp hi'
    have hpair := List.pairwise_iff_getElem.mp hsorted
    rcases Nat.lt_trichotomy (b.first + n) (b'.first + n') with h | h | h
    · have := hpair _ _ hlt hlt' h
      omega
    · exact h
    · have := hpair _ _ hlt' hlt h
      omega
  have hbb := hcfg.unique hb hb' (by omega) hlast (by omega) (by omega)
  subst hbb
  exact ⟨rfl, by omega⟩

theorem recordVisit_handlers {p : Proving} {pc : Nat} :
    (recordVisit i s p).handlers.get? pc =
      if i.pc = pc ∧ s.innermostCatch.isSome then s.innermostCatch else p.handlers.get? pc := by
  unfold recordVisit
  cases s.innermostCatch with
  | none => simp
  | some h => simp [OrdMap.get?_insert]

theorem Tracked.instruction (hcfg : ctx.cfg.Ok ctx.instructions)
    (hsorted : ctx.instructions.Pairwise (fun a b => a.nextPc ≤ b.pc ∧ a.pc < b.pc)) {p : Proving}
    {E' : AbstractState} (h : Tracked ctx p) (hb : b ∈ ctx.cfg.blocks)
    (hi : (b.instructions ctx.instructions)[n]? = some i) (hE : p.entries.get? b.startPc = some E')
    (hshape : E.SameShape E')
    (hat : stateAt ctx.snapshot (b.instructions ctx.instructions) n E = .ok s)
    (hrun : InstructionRun ctx i p s p' s') : Tracked ctx p' := by
  -- earlier transfers at this pc saw the same catches
  have hsame : ∀ step ∈ p.steps, step.instruction.pc = i.pc → step.before.catches = s.catches := by
    intro step hstep hpc
    obtain ⟨b', n', E₀, E₁, hb', hi', hE₁, hshape', hat', -⟩ := h.located step hstep
    obtain ⟨rfl, rfl⟩ := same_place hcfg hsorted hb' hb hi' hi hpc
    rw [hE] at hE₁
    cases hE₁
    have : E₀.SameShape E := by
      rw [sameShape_iff] at hshape hshape' ⊢
      exact ⟨hshape'.1.trans hshape.1.symm, hshape'.2.1.trans hshape.2.1.symm,
        hshape'.2.2.trans hshape.2.2.symm⟩
    exact (transferAll_sameShape this hat' hat).catches
  have hold : Tracked ctx { p' with steps := p.steps, visited := p.visited, handlers := p.handlers } :=
    h.of_grows ⟨hrun.grows.entries, hrun.grows.source, hrun.grows.queue, hrun.grows.changed⟩
      rfl rfl rfl
  constructor
  · intro step hstep
    rw [hrun.steps, List.mem_append, List.mem_singleton] at hstep
    rcases hstep with hstep | rfl
    · exact hold.located step hstep
    · obtain ⟨E'', hE'', hw⟩ := hrun.grows.entries hE
      refine ⟨b, n, E, E'', hb, hi, hE'', ?_, hat, hrun.transfer⟩
      rw [sameShape_iff] at hshape ⊢
      rw [← hw.locals.length_eq, hw.stack, hw.catches]
      exact hshape
  · intro step hstep
    rw [hrun.handlers, recordVisit_handlers]
    rw [hrun.steps, List.mem_append, List.mem_singleton] at hstep
    rcases hstep with hstep | rfl
    · split
      case isTrue hpc => exact (innermostCatch_congr (hsame step hstep hpc.1.symm)).symm
      case isFalse => exact h.handlers step hstep
    · cases hc : s.innermostCatch with
      | some handler => simp
      | none =>
        simp only [Option.isSome_none, Bool.false_eq_true, and_false, if_false]
        cases hget : p.handlers.get? i.pc with
        | none => rfl
        | some handler =>
          obtain ⟨step, hstep, hpc⟩ := h.handled _ _ hget
          have h1 := h.handlers step hstep
          rw [hpc, hget, innermostCatch_congr (hsame step hstep hpc), hc] at h1
          exact h1
  · intro pc handler hget
    rw [hrun.steps]
    rw [hrun.handlers, recordVisit_handlers] at hget
    split at hget
    case isTrue hpc => exact ⟨⟨i, s, s'⟩, by simp, hpc.1⟩
    case isFalse =>
      obtain ⟨step, hstep, hpc⟩ := h.handled pc handler hget
      exact ⟨step, List.mem_append_left _ hstep, hpc⟩
  · intro pc hpc
    rw [hrun.steps]
    rw [hrun.visited, OrdSet.mem_insert] at hpc
    rcases hpc with rfl | hpc
    · exact ⟨⟨i, s, s'⟩, by simp, rfl⟩
    · obtain ⟨step, hstep, hpc⟩ := h.visited pc hpc
      exact ⟨step, List.mem_append_left _ hstep, hpc⟩

/-! ## The edges of a block -/

theorem AbstractState.WellNested.lt_last (h : WellNested s) {c last : Nat × Option Nat}
    (hlast : s.catches.getLast? = some last) (hc : c ∈ s.catches.dropLast) : c.1 < last.1 := by
  obtain ⟨init, hinit⟩ := List.getLast?_eq_some_iff.mp hlast
  have hsorted := h.sorted
  rw [hinit, List.dropLast_concat] at hc
  rw [hinit] at hsorted
  exact (List.pairwise_append.mp hsorted).2.2 c hc last (by simp)

/-- An entry with the frame of a good state, or with its top catch offset
caught, is good. -/
theorem StateOk.edgeEntry (hs : StateOk ctx entries s) (hE : EdgeEntry s E) :
    StateOk ctx entries E := by
  rcases hE.frame with ⟨hstack, hcatches⟩ | ⟨htop, hne, hstack, hcatches⟩
  · refine ⟨⟨hcatches ▸ hs.nested.sorted, ?_⟩, ?_, hE.locals.trans hs.locals, hstack ▸ hs.stack⟩
    · rw [hcatches, hstack]
      exact hs.nested.below
    · intro index handlerPc
      rw [hcatches, hstack]
      exact hs.handlers index handlerPc
  · obtain ⟨last, hlast⟩ : ∃ last, s.catches.getLast? = some last :=
      Option.isSome_iff_exists.mp (by simpa using hne)
    have hlen : 0 < s.stack.length := by
      rcases Nat.eq_zero_or_pos s.stack.length with h0 | h0
      · rw [List.length_eq_zero_iff.mp h0] at htop
        cases htop
      · exact h0
    have hElen : E.stack.length = s.stack.length := by
      rw [hstack, List.length_append, List.length_dropLast]
      simp; omega
    have hbelow : last.1 < s.stack.length := hs.nested.below last (List.mem_of_getLast? hlast)
    refine ⟨⟨?_, fun c hc => ?_⟩, ?_, hE.locals.trans hs.locals, hElen ▸ hs.stack⟩
    · rw [hcatches]
      exact hs.nested.sorted.sublist (List.dropLast_sublist _)
    · rw [hcatches] at hc
      rw [hElen]
      exact hs.nested.below c (List.dropLast_subset _ hc)
    · intro index handlerPc hmem
      rw [hcatches] at hmem
      have hindex := hs.nested.lt_last hlast hmem
      obtain ⟨H, hH, hHstack, hHcatches⟩ :=
        hs.handlers index handlerPc (List.dropLast_subset _ hmem)
      refine ⟨H, hH, ?_, ?_⟩
      · rw [hHstack, hstack, List.take_append_of_le_length (by simp; dsimp only at hindex; omega),
          List.dropLast_eq_take, List.take_take, Nat.min_eq_left (by dsimp only at hindex; omega)]
      · obtain ⟨init, hinit⟩ := List.getLast?_eq_some_iff.mp hlast
        rw [hHcatches, hcatches, hinit, List.dropLast_concat, List.filter_append,
          List.filter_singleton, decide_eq_false (by dsimp only at hindex; omega), cond_false,
          List.append_nil]

/-- What running the edges `done` from the end state `s` does. -/
structure EdgesRun (tail : Instruction) (s : AbstractState) (done : List Nat) (p p' : Proving) :
    Prop where
  grows : Grows (EdgeEntry s) p p'
  covered : ∀ successor ∈ done, EdgeCovered p'.entries tail s successor
  steps : p'.steps = p.steps
  visited : p'.visited = p.visited
  handlers : p'.handlers = p.handlers
  before : p'.before = p.before

theorem proveEdges_run {tail : Instruction} {p : Proving}
    (hlocals : ∀ pc E, p.entries.get? pc = some E → E.locals.length = s.locals.length)
    (h : successors.foldlM (proveEdge ctx tail s) p = .ok p') :
    EdgesRun tail s successors p p' := by
  refine foldlM_inv (P := fun done p₁ => EdgesRun tail s done p p₁) h
    ⟨.refl, fun _ hmem => by simp at hmem, rfl, rfl, rfl, rfl⟩ ?_
  intro done successor rest p₁ p₂ _ hdone hedge
  have hrun := proveEdge_run (fun {pc E} hE => by
    rcases hdone.grows.source hE with ⟨E₀, hE₀, hw⟩ | hnew
    · exact hw.locals.length_eq.symm.trans (hlocals pc E₀ hE₀)
    · exact hnew.locals) hedge
  refine ⟨hdone.grows.trans EdgeEntry.widens hrun.grows, fun succ hmem => ?_,
    hrun.steps.trans hdone.steps, hrun.visited.trans hdone.visited,
    hrun.handlers.trans hdone.handlers, hrun.before.trans hdone.before⟩
  rcases List.mem_append.mp hmem with hmem | hmem
  · exact (hdone.covered succ hmem).grows hrun.grows
  · rw [List.mem_singleton.mp hmem]
    exact hrun.covered

/-- The state at the end of a block is good once the edges have been run: a
`catch` at its end has put its handler's entry in place. -/
theorem StateOk.tail {p : Proving} {tail : Instruction} {A : AbstractState}
    (hA : StateOk ctx p.entries A) (htransfer : QuickJit.transfer ctx.snapshot tail A = .ok s)
    (hedges : EdgesRun tail s successors p p')
    (hhandler : tail.name = .catchOp → ∀ target, tail.targetPc = some target →
      target ∈ successors) : StateOk ctx p'.entries s := by
  obtain ⟨kept, pushed, live, hshape⟩ := transfer_reshapes hA.nested htransfer
  have hnested := hshape.wellNested hA.nested
  refine ⟨hnested, ?_, (transfer_locals_length htransfer).trans hA.locals,
    transfer_stack_le htransfer⟩
  intro index handlerPc hmem
  rcases hshape.handler_cases (hA.handlers.grows hedges.grows) hmem with hold | ⟨hname, htarget, hindex⟩
  · exact hold
  · obtain ⟨S, hS, hcov⟩ := hedges.covered handlerPc (hhandler hname handlerPc htarget)
    have hcatch : catchTarget tail = some handlerPc := by
      rw [catchTarget, if_pos hname, htarget]
    rw [if_pos hcatch] at hcov
    obtain ⟨c, hc, hbelow, hstack⟩ := hcov
    obtain ⟨rfl, htop, last, hlast⟩ := caughtState_eq_some hc
    have hlastMem : last < s.stack.length := hnested.below _ (List.mem_of_getLast? hlast)
    -- the handler on top of the stack is the innermost one
    have hle : index ≤ last := by
      obtain ⟨init, hinit⟩ := List.getLast?_eq_some_iff.mp hlast
      rw [hinit] at hmem
      rcases List.mem_append.mp hmem with hmem | hmem
      · have := hnested.lt_last (c := (index, some handlerPc)) hlast
          (by rw [hinit, List.dropLast_concat]; exact hmem)
        exact Nat.le_of_lt this
      · cases List.mem_singleton.mp hmem
        exact le_rfl
    have hlastEq : last = index := by omega
    subst hlastEq
    refine ⟨S, hS, ?_, ?_⟩
    · have : s.stack.length - 1 = last := by omega
      rw [hstack, List.dropLast_eq_take, this]
    · rw [← hbelow.catches]
      exact filter_below_dropLast hnested.sorted hlast

/-! ## Whole blocks -/

/-- Instruction `n` of a block entered with `E` has been run, and everything it
can continue at is covered. -/
def PointClosed (ctx : ProveContext) (p : Proving) (b : BasicBlock) (E : AbstractState) (n : Nat)
    (i : Instruction) : Prop :=
  ∃ A A', stateAt ctx.snapshot (b.instructions ctx.instructions) n E = .ok A ∧
    transfer ctx.snapshot i A = .ok A' ∧ ⟨i, A, A'⟩ ∈ p.steps ∧
    StateOk ctx p.entries A ∧ HandlerLocals p.entries A ∧
    (i.pc ∈ ctx.beforePoints → p.before.get? i.pc = some A) ∧
    (n + 1 = (b.instructions ctx.instructions).length →
      ∀ successor ∈ b.successors, EdgeCovered p.entries i A' successor)

def Closed (ctx : ProveContext) (p : Proving) (b : BasicBlock) (E : AbstractState) : Prop :=
  ∀ n i, (b.instructions ctx.instructions)[n]? = some i → PointClosed ctx p b E n i

theorem Closed.grows {p : Proving} (h : Closed ctx p b E) (hgrows : Grows New p p')
    (hsteps : ∀ step ∈ p.steps, step ∈ p'.steps) (hbefore : ∀ i ∈ b.instructions ctx.instructions,
      p'.before.get? i.pc = p.before.get? i.pc) : Closed ctx p' b E := by
  intro n i hi
  obtain ⟨A, A', hA, hA', hstep, hok, hlocals, hpoint, hedges⟩ := h n i hi
  refine ⟨A, A', hA, hA', hsteps _ hstep, hok.grows hgrows, hlocals.grows hgrows, fun hmem => ?_,
    fun hlast successor hsucc => (hedges hlast successor hsucc).grows hgrows⟩
  rw [hbefore i (List.mem_of_getElem? hi)]
  exact hpoint hmem

/-- What `proveBlock` does. -/
structure BlockRun (ctx : ProveContext) (b : BasicBlock) (E : AbstractState) (p p' : Proving) :
    Prop where
  grows : Grows (StateOk ctx p'.entries) p p'
  tracked : Tracked ctx p'
  closed : Closed ctx p' b E
  steps : ∀ step ∈ p.steps, step ∈ p'.steps
  source : ∀ step ∈ p'.steps,
    step ∈ p.steps ∨ StepOf ctx (b.instructions ctx.instructions) E step
  edges : ∃ s, transferAll ctx.snapshot (b.instructions ctx.instructions) E = .ok s ∧
    Grows (fun E' => EdgeEntry s E') p p'
  before : ∀ pc, (∀ i ∈ b.instructions ctx.instructions, i.pc ≠ pc) →
    p'.before.get? pc = p.before.get? pc

section Block

variable {ctx : ProveContext} {p p' : Proving}

theorem block_pcs_ne (hsorted : ctx.instructions.Pairwise
      (fun a b => a.nextPc ≤ b.pc ∧ a.pc < b.pc)) {post : List Instruction}
    (h : b.instructions ctx.instructions = pre ++ i :: post) :
    ∀ j ∈ pre, j.pc ≠ i.pc := by
  have hsub : (b.instructions ctx.instructions).Pairwise
      (fun a b => a.nextPc ≤ b.pc ∧ a.pc < b.pc) :=
    hsorted.sublist ((List.take_sublist _ _).trans (List.drop_sublist _ _))
  rw [h] at hsub
  intro j hj
  exact Nat.ne_of_lt ((List.pairwise_append.mp hsub).2.2 j hj i (by simp)).2

variable (hcfg : ctx.cfg.Ok ctx.instructions)

include hcfg

theorem proveBody_run
    (hsorted : ctx.instructions.Pairwise (fun a b => a.nextPc ≤ b.pc ∧ a.pc < b.pc))
    (hb : b ∈ ctx.cfg.blocks) (hE : p.entries.get? b.startPc = some E) (htracked : Tracked ctx p)
    (h : (b.instructions ctx.instructions).foldlM (proveInstruction ctx) (p, E) = .ok (p', s)) :
    BodyRun ctx (b.instructions ctx.instructions) E p p' s ∧ Tracked ctx p' := by
  refine foldlM_inv (P := fun pre ps => BodyRun ctx pre E p ps.1 ps.2 ∧ Tracked ctx ps.1) h
    ⟨.nil ctx E p, htracked⟩ ?_
  rintro pre i post ⟨p₁, s₁⟩ ⟨p₂, s₂⟩ hsplit ⟨hrun, htrack⟩ hstep
  have hi := proveInstruction_run hstep
  obtain ⟨E', hE', hw⟩ := hrun.grows.entries hE
  refine ⟨hrun.concat hi (block_pcs_ne hsorted hsplit), ?_⟩
  refine htrack.instruction hcfg hsorted hb (n := pre.length) (E := E) ?_ hE' hw.sameShape ?_ hi
  · rw [hsplit]
    simp
  · rw [stateAt, hsplit, List.take_left']
    · exact hrun.state
    · rfl

theorem BasicBlock.instructions_length (hb : b ∈ ctx.cfg.blocks) :
    (b.instructions ctx.instructions).length = b.last - b.first := by
  have := hcfg.last_le hb
  simp only [BasicBlock.instructions, List.length_take, List.length_drop]
  omega

/-- Before the end of a block no instruction branches. -/
theorem block_inner (hb : b ∈ ctx.cfg.blocks)
    (hn : n + 1 < (b.instructions ctx.instructions).length)
    (hi : (b.instructions ctx.instructions)[n]? = some i) : i.branchTarget = none := by
  rw [BasicBlock.instructions_length hcfg hb] at hn
  exact hcfg.inner hb (Nat.le_add_right _ _) (by omega) (BasicBlock.getElem?_instructions hi).1

theorem block_tail (hb : b ∈ ctx.cfg.blocks) {tail : Instruction}
    (h : (b.instructions ctx.instructions).getLast? = some tail) :
    b.tail ctx.instructions = some tail := by
  have hlen := BasicBlock.instructions_length hcfg hb
  have hlt := hcfg.first_lt hb
  rw [List.getLast?_eq_getElem?, hlen] at h
  have hget := (BasicBlock.getElem?_instructions h).1
  have hpos : b.first + (b.last - b.first - 1) = b.last - 1 := by omega
  rw [hpos] at hget
  obtain ⟨m, hm⟩ : ∃ m, b.last = m + 1 := ⟨b.last - 1, by omega⟩
  rw [BasicBlock.tail, hm, tailBefore]
  rwa [hm] at hget

theorem proveBlock_run
    (hsorted : ctx.instructions.Pairwise (fun a b => a.nextPc ≤ b.pc ∧ a.pc < b.pc)) {pc : Nat}
    (htracked : Tracked ctx p) (hok : ∀ pc E, p.entries.get? pc = some E → StateOk ctx p.entries E)
    (h : proveBlock ctx pc p = .ok p') :
    ∃ b E, ctx.cfg.block pc = some b ∧ p.entries.get? pc = some E ∧ BlockRun ctx b E p p' := by
  simp only [proveBlock, bind_eq_ok, expect_eq_ok, Prod.exists] at h
  obtain ⟨b, hblock, E, hE, p₁, hp₁, p₂, s, hbody, tail, htail, h⟩ := h
  rw [ite_reject_eq_ok] at h
  obtain ⟨-, hedges⟩ := h
  obtain ⟨used, rfl⟩ := charge_eq_ok hp₁
  obtain ⟨hb, hpc⟩ := hcfg.block_iff.mp hblock
  refine ⟨b, E, hblock, hE, ?_⟩
  obtain ⟨hrun, htrack⟩ := proveBody_run hcfg hsorted (p := { p with used }) hb (hpc ▸ hE)
    ⟨htracked.located, htracked.handlers, htracked.handled, htracked.visited⟩ hbody
  have hgrows₂ : Grows (fun _ => False) p p₂ := hrun.grows.charged
  -- the state before the last instruction
  obtain ⟨m, hm⟩ : ∃ m, (b.instructions ctx.instructions).length = m + 1 := by
    refine Nat.exists_eq_succ_of_ne_zero fun h0 => ?_
    rw [List.length_eq_zero_iff.mp h0] at htail
    cases htail
  have htailAt : (b.instructions ctx.instructions)[m]? = some tail := by
    rw [List.getLast?_eq_getElem?, hm] at htail
    exact htail
  have hstate : ∀ n i A, (b.instructions ctx.instructions)[n]? = some i → stateAt ctx.snapshot (b.instructions ctx.instructions) n E = .ok A →
      StateOk ctx p₂.entries A := by
    intro n i A hi hA
    have hn : n < (b.instructions ctx.instructions).length := (List.getElem?_eq_some_iff.mp hi).1
    exact stateAt_ok ((hok pc E hE).grows hgrows₂) (by omega)
      (fun k j hk hj => block_inner hcfg hb (by omega) hj) hA
  obtain ⟨A, A', hA, hA', -⟩ := hrun.points m tail htailAt
  have hs : s = A' := by
    have h1 : stateAt ctx.snapshot (b.instructions ctx.instructions) (m + 1) E = .ok s := by
      rw [stateAt, ← hm, List.take_length]
      exact hrun.state
    have h2 : stateAt ctx.snapshot (b.instructions ctx.instructions) (m + 1) E = .ok A' :=
      (stateAt_succ htailAt).mpr ⟨A, hA, hA'⟩
    exact Except.ok.inj (h1.symm.trans h2)
  subst hs
  have hlen : ∀ pc E, p₂.entries.get? pc = some E → E.locals.length = s.locals.length := by
    intro pc' E' hE'
    have hslen := (transfer_locals_length hA').trans (hstate m tail A htailAt hA).locals
    rcases hgrows₂.source hE' with ⟨E₀, hE₀, hw⟩ | hfalse
    · exact (hw.locals.length_eq.symm.trans (hok pc' E₀ hE₀).locals).trans hslen.symm
    · exact hfalse.elim
  have hedgesRun := proveEdges_run hlen hedges
  have hsOk : StateOk ctx p'.entries s := (hstate m tail A htailAt hA).tail hA' hedgesRun
    fun hname target htarget => hcfg.handler hb (block_tail hcfg hb htail) hname htarget
  have hgrows₃ : Grows (StateOk ctx p'.entries) p₂ p' :=
    hedgesRun.grows.mono fun hentry => hsOk.edgeEntry hentry
  refine ⟨(hgrows₂.mono fun h => h.elim).trans (fun h hw => h.widens hw) hgrows₃,
    htrack.of_grows hgrows₃ hedgesRun.steps hedgesRun.visited hedgesRun.handlers, ?_, ?_, ?_, ?_, ?_⟩
  · intro n i hi
    obtain ⟨B, B', hB, hB', hstep, hlocals, hbefore⟩ := hrun.points n i hi
    refine ⟨B, B', hB, hB', hedgesRun.steps ▸ hstep, (hstate n i B hi hB).grows hgrows₃,
      hlocals.grows hgrows₃, fun hmem => hedgesRun.before ▸ hbefore hmem, ?_⟩
    intro hlast successor hsucc
    have hnm : n = m := by omega
    subst hnm
    rw [htailAt] at hi
    cases hi
    rw [hA] at hB
    cases hB
    rw [hA'] at hB'
    cases hB'
    exact hedgesRun.covered successor hsucc
  · intro step hstep
    rw [hedgesRun.steps]
    exact hrun.steps step hstep
  · rw [hedgesRun.steps]
    exact hrun.source
  · exact ⟨s, hrun.state,
      (hgrows₂.mono fun h => h.elim).trans EdgeEntry.widens hedgesRun.grows⟩
  · intro pc' hother
    rw [hedgesRun.before]
    exact hrun.before pc' hother

end Block

/-! ## The worklist -/

/-- What holds before every turn of the worklist. -/
structure Invariant (ctx : ProveContext) (p : Proving) : Prop where
  start : ∃ E, p.entries.get? 0 = some E ∧ (initialState ctx.snapshot).Below E
  ok : ∀ pc E, p.entries.get? pc = some E → StateOk ctx p.entries E
  tracked : Tracked ctx p
  closed : ∀ pc E, p.entries.get? pc = some E →
    pc ∈ p.queue ∨ ∃ b, ctx.cfg.block pc = some b ∧ Closed ctx p b E

theorem proveStep_invariant (hcfg : ctx.cfg.Ok ctx.instructions)
    (hsorted : ctx.instructions.Pairwise (fun a b => a.nextPc ≤ b.pc ∧ a.pc < b.pc)) {p : Proving}
    (hp : Invariant ctx p) (h : proveStep ctx p = .ok (some p')) :
    Invariant ctx p' := by
  unfold proveStep at h
  split at h
  · cases h
  case h_2 blockPc queue hqueue =>
  obtain ⟨p₁, hturn, h⟩ := bind_eq_ok.mp h
  cases h
  obtain ⟨b, E, hblock, hE, hrun⟩ := proveBlock_run hcfg hsorted (p := { p with queue })
    ⟨hp.tracked.located, hp.tracked.handlers, hp.tracked.handled, hp.tracked.visited⟩ hp.ok hturn
  obtain ⟨hb, hbpc⟩ := hcfg.block_iff.mp hblock
  refine ⟨?_, fun pc E' hE' => ?_, hrun.tracked, fun pc E' hE' => ?_⟩
  · obtain ⟨E₀, hE₀, hbelow⟩ := hp.start
    obtain ⟨E₁, hE₁, hw⟩ := hrun.grows.entries hE₀
    exact ⟨E₁, hE₁, hbelow.trans hw.below⟩
  · rcases hrun.grows.source hE' with ⟨E₀, hE₀, hw⟩ | hnew
    · exact ((hp.ok pc E₀ hE₀).grows (p := { p with queue }) hrun.grows).widens hw
    · exact hnew
  · rcases hrun.grows.changed hE' with hold | hmem
    · by_cases hpc : pc = blockPc
      · -- the block just run, from the entry it still has
        subst hpc
        have hEE : E = E' := Option.some.inj (hE.symm.trans hold)
        exact .inr ⟨b, hblock, hEE ▸ hrun.closed⟩
      · rcases hp.closed pc E' hold with hmem | ⟨b', hblock', hclosed⟩
        · rw [hqueue, List.mem_cons] at hmem
          exact .inl (hrun.grows.queue (hmem.resolve_left hpc))
        · -- another block, closed before, whose instructions were not run
          obtain ⟨hb', hbpc'⟩ := hcfg.block_iff.mp hblock'
          have hclosed' : Closed ctx { p with queue } b' E' := hclosed
          refine .inr ⟨b', hblock', hclosed'.grows hrun.grows hrun.steps fun i hi => ?_⟩
          refine hrun.before i.pc fun j hj heq => hpc ?_
          obtain ⟨n, hn⟩ := List.mem_iff_getElem?.mp hi
          obtain ⟨n', hn'⟩ := List.mem_iff_getElem?.mp hj
          rw [← hbpc, ← hbpc', (same_place hcfg hsorted hb hb' hn' hn heq).1]
    · exact .inl hmem

theorem initial_invariant {used : Nat} :
    Invariant ctx { initialProving ctx.snapshot with used } := by
  have hget : ∀ pc E, (initialProving ctx.snapshot).entries.get? pc = some E →
      pc = 0 ∧ E = initialState ctx.snapshot := by
    intro pc E h
    exact (OrdMap.get?_insert_cases h).resolve_right nofun
  refine ⟨⟨_, OrdMap.get?_insert_self .., .refl _⟩, fun pc E hE => ?_, ?_, fun pc E hE => ?_⟩
  · obtain ⟨-, rfl⟩ := hget pc E hE
    exact ⟨⟨List.Pairwise.nil, fun _ h => (List.not_mem_nil h).elim⟩,
      fun _ _ h => (List.not_mem_nil h).elim, List.length_replicate, Nat.zero_le _⟩
  · exact ⟨fun _ h => (List.not_mem_nil h).elim, fun _ h => (List.not_mem_nil h).elim,
      fun _ _ h => (Option.some_ne_none _ h.symm).elim, fun _ h => (OrdSet.not_mem_empty _ h).elim⟩
  · obtain ⟨rfl, -⟩ := hget pc E hE
    exact .inl (by simp [initialProving])

/-- When the worklist is empty every entry is closed. -/
theorem proveEntries_closed {fuel : Nat} {p : Proving} (hcfg : ctx.cfg.Ok ctx.instructions)
    (hsorted : ctx.instructions.Pairwise (fun a b => a.nextPc ≤ b.pc ∧ a.pc < b.pc))
    (h : proveEntries fuel ctx = .ok p) :
    Invariant ctx p ∧ ∀ pc E, p.entries.get? pc = some E →
      ∃ b, ctx.cfg.block pc = some b ∧ Closed ctx p b E := by
  obtain ⟨p₀, hcharge, hrun⟩ := bind_eq_ok.mp h
  obtain ⟨used, rfl⟩ := charge_eq_ok hcharge
  obtain ⟨hinv, hdone⟩ := iterate_inv (P := Invariant ctx)
    (fun _ _ => proveStep_invariant hcfg hsorted) hrun initial_invariant
  have hqueue : p.queue = [] := by
    unfold proveStep at hdone
    split at hdone
    · assumption
    · obtain ⟨_, -, hdone⟩ := bind_eq_ok.mp hdone
      cases hdone
  refine ⟨hinv, fun pc E hE => (hinv.closed pc E hE).resolve_left ?_⟩
  rw [hqueue]
  exact List.not_mem_nil

end QuickJit
