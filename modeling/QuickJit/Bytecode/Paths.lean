import QuickJit.Bytecode.Fixpoint
import QuickJit.Bytecode.Sample

/-
  Every path through a verified function is covered by what the verifier
  proved.

  `Reaches` follows a path from pc 0: from instruction to instruction, over the
  edges of the graph, and from any instruction with a live handler to that
  handler, with the stack cut back to the catch offset and the caught value in
  its place. `verified_paths_covered` says that `transfer` never fails on such
  a path and that the state it carries is covered, slot by slot, by the state
  the verifier holds for that instruction. The depth and the catches are the
  same on all paths; the kinds need not be (`paths_differ_in_kinds`): a join
  forgets the kind of a local, but a path that did not pass the other side
  still knows it, and loads it.
-/

namespace QuickJit

variable {s : AbstractState} {b : BasicBlock} {snapshot : CompileSnapshot} {fuel n : Nat}
  {table : OpcodeTable} {proof : StateProof} {f : VerifiedFunction} {limits : VerifyLimits}

/-- The state a handler is entered with when the slot at `index` holds its
catch offset. -/
def unwindState (index : Nat) (s : AbstractState) : AbstractState :=
  { s with
    stack := s.stack.take index ++ [.tagged]
    catches := s.catches.filter fun c => decide (c.1 < index) }

/-- Some path from the entry reaches instruction `n` of block `b` with state
`s`. -/
inductive Reaches (f : VerifiedFunction) : BasicBlock → Nat → AbstractState → Prop
  | entry {b : BasicBlock} (hb : f.cfg.block 0 = some b) :
      Reaches f b 0 (initialState f.snapshot)
  | next {b : BasicBlock} {n : Nat} {i : Instruction} {s s' : AbstractState}
      (hs : Reaches f b n s) (hi : (b.instructions f.instructions)[n]? = some i)
      (ht : transfer f.snapshot i s = .ok s')
      (hn : n + 1 < (b.instructions f.instructions).length) : Reaches f b (n + 1) s'
  | edge {b b' : BasicBlock} {n successor : Nat} {i : Instruction} {s s' : AbstractState}
      (hs : Reaches f b n s) (hi : (b.instructions f.instructions)[n]? = some i)
      (ht : transfer f.snapshot i s = .ok s')
      (hn : n + 1 = (b.instructions f.instructions).length) (hsucc : successor ∈ b.successors)
      (hcatch : catchTarget i ≠ some successor) (hb' : f.cfg.block successor = some b') :
      Reaches f b' 0 s'
  | caught {b b' : BasicBlock} {n successor : Nat} {i : Instruction} {s s' c : AbstractState}
      (hs : Reaches f b n s) (hi : (b.instructions f.instructions)[n]? = some i)
      (ht : transfer f.snapshot i s = .ok s')
      (hn : n + 1 = (b.instructions f.instructions).length) (hsucc : successor ∈ b.successors)
      (hcatch : catchTarget i = some successor) (hc : caughtState successor s' = some c)
      (hb' : f.cfg.block successor = some b') : Reaches f b' 0 c
  | raise {b b' : BasicBlock} {n index handlerPc : Nat} {s : AbstractState}
      (hs : Reaches f b n s) (hh : s.innermostHandler = some (index, handlerPc))
      (hb' : f.cfg.block handlerPc = some b') : Reaches f b' 0 (unwindState index s)

/-- Some path reaches the instruction `i` with state `s`. -/
def ReachesInstruction (f : VerifiedFunction) (i : Instruction) (s : AbstractState) : Prop :=
  ∃ b n, Reaches f b n s ∧ (b.instructions f.instructions)[n]? = some i

/-- The verifier's state at instruction `n` of block `b`. -/
def HoldsAt (f : VerifiedFunction) (p : Proving) (b : BasicBlock) (n : Nat) (A : AbstractState) :
    Prop :=
  ∃ E, p.entries.get? b.startPc = some E ∧
    stateAt f.snapshot (b.instructions f.instructions) n E = .ok A

theorem caughtState_below {successor : Nat} {t c d : AbstractState} (h : s.Below t)
    (hc : caughtState successor s = some c) (hd : caughtState successor t = some d) :
    c.Below d := by
  obtain ⟨rfl, -⟩ := caughtState_eq_some hc
  obtain ⟨rfl, -⟩ := caughtState_eq_some hd
  exact ⟨h.locals, List.rel_append h.stack.dropLast (.cons (.refl _) .nil),
    by rw [h.catches]⟩

theorem unwindState_below {index : Nat} {t H : AbstractState} (h : s.Below t)
    (hlocals : KindsRelated (fun a b => SlotKind.Covers b a) t.locals H.locals)
    (hstack : H.stack = t.stack.take index ++ [.tagged])
    (hcatches : H.catches = t.catches.filter fun c => decide (c.1 < index)) :
    (unwindState index s).Below H where
  locals := h.locals.covers_trans hlocals
  stack := hstack ▸ List.rel_append (List.forall₂_take _ h.stack) (.cons (.refl _) .nil)
  catches := by rw [hcatches, ← h.catches]; rfl

/-- What `prove` works with when it proves `f`. -/
def VerifiedFunction.context (f : VerifiedFunction) (maxWorkUnits : Nat) : ProveContext :=
  proveContext f.snapshot f.instructions f.cfg maxWorkUnits

/-- `p` is a finished worklist for `f`. -/
structure Solved (f : VerifiedFunction) (maxWorkUnits : Nat) (p : Proving) : Prop where
  cfg_ok : f.cfg.Ok f.instructions
  sorted : f.instructions.Pairwise (fun a b => a.nextPc ≤ b.pc ∧ a.pc < b.pc)
  invariant : Invariant (f.context maxWorkUnits) p
  closed : ∀ pc E, p.entries.get? pc = some E →
    ∃ b, f.cfg.block pc = some b ∧ Closed (f.context maxWorkUnits) p b E

/-- A path's state is covered by the verifier's at instruction `n` of `b`. -/
structure CoveredAt (f : VerifiedFunction) (p : Proving) (b : BasicBlock) (n : Nat)
    (s : AbstractState) : Prop where
  block : b ∈ f.cfg.blocks
  position : n < (b.instructions f.instructions).length
  below : ∃ A, HoldsAt f p b n A ∧ s.Below A

namespace Solved

variable {f : VerifiedFunction} {maxWorkUnits : Nat} {p : Proving}

variable (h : Solved f maxWorkUnits p)

include h

theorem coveredAt_entry {pc : Nat} {E : AbstractState} (hb : f.cfg.block pc = some b)
    (hE : p.entries.get? pc = some E) (hs : s.Below E) :
    CoveredAt f p b 0 s := by
  obtain ⟨hmem, rfl⟩ := h.cfg_ok.block_iff.mp hb
  refine ⟨hmem, ?_, E, ⟨E, hE, rfl⟩, hs⟩
  have hlast := h.cfg_ok.last_le hmem
  have hfirst := h.cfg_ok.first_lt hmem
  simp only [BasicBlock.instructions, List.length_take, List.length_drop]
  omega

/-- The verifier has run the instruction at every place it holds a state for. -/
theorem point {i : Instruction} {A : AbstractState} (hb : b ∈ f.cfg.blocks) (hA : HoldsAt f p b n A)
    (hi : (b.instructions f.instructions)[n]? = some i) :
    ∃ A', transfer f.snapshot i A = .ok A' ∧ ⟨i, A, A'⟩ ∈ p.steps ∧
      StateOk (f.context maxWorkUnits) p.entries A ∧ HandlerLocals p.entries A ∧
      (i.pc ∈ (f.context maxWorkUnits).beforePoints → p.before.get? i.pc = some A) ∧
      (n + 1 = (b.instructions f.instructions).length →
        ∀ successor ∈ b.successors, EdgeCovered p.entries i A' successor) := by
  obtain ⟨E, hE, hA⟩ := hA
  obtain ⟨b', hb', hclosed⟩ := h.closed _ E hE
  have hbb : b' = b :=
    Option.some.inj (hb'.symm.trans (h.cfg_ok.block_iff.mpr ⟨hb, rfl⟩))
  subst hbb
  obtain ⟨B, B', hB, hB', hrest⟩ := hclosed n i hi
  have hBA : B = A := Except.ok.inj (hB.symm.trans hA)
  subst hBA
  exact ⟨B', hB', hrest⟩

/-- A covered path steps, and stays covered by the verifier's next state. -/
theorem step {i : Instruction} {s' : AbstractState} (hs : CoveredAt f p b n s)
    (hi : (b.instructions f.instructions)[n]? = some i) (ht : transfer f.snapshot i s = .ok s') :
    ∃ A', HoldsAt f p b (n + 1) A' ∧ s'.Below A' ∧
      (n + 1 = (b.instructions f.instructions).length →
        ∀ successor ∈ b.successors, EdgeCovered p.entries i A' successor) := by
  obtain ⟨A, hA, hbelow⟩ := hs.below
  obtain ⟨A', hA', -, -, -, -, hedges⟩ := h.point hs.block hA hi
  obtain ⟨t, ht', hbelow'⟩ := transfer_below hbelow hA'
  rw [ht] at ht'
  cases ht'
  obtain ⟨E, hE, hstate⟩ := hA
  exact ⟨A', ⟨E, hE, (stateAt_succ hi).mpr ⟨A, hstate, hA'⟩⟩, hbelow', hedges⟩

/-- One block entry covers every state that reaches it; carried forward by
`transfer` it covers every state inside the block. -/
theorem reaches_covered (hs : Reaches f b n s) :
    CoveredAt f p b n s := by
  -- induction on the path; the entries of `p` are closed under each kind of step
  induction hs with
  | entry hb =>
    obtain ⟨E, hE, hbelow⟩ := h.invariant.start
    exact h.coveredAt_entry hb hE hbelow
  | next _ hi ht hn ih =>
    obtain ⟨A', hA', hbelow, -⟩ := h.step ih hi ht
    exact ⟨ih.block, hn, A', hA', hbelow⟩
  | edge _ hi ht hn hsucc hcatch hb' ih =>
    obtain ⟨A', -, hbelow, hedges⟩ := h.step ih hi ht
    obtain ⟨S, hS, hcov⟩ := hedges hn _ hsucc
    rw [if_neg hcatch] at hcov
    exact h.coveredAt_entry hb' hS (hbelow.trans hcov)
  | caught _ hi ht hn hsucc hcatch hc hb' ih =>
    obtain ⟨A', -, hbelow, hedges⟩ := h.step ih hi ht
    obtain ⟨S, hS, hcov⟩ := hedges hn _ hsucc
    rw [if_pos hcatch] at hcov
    obtain ⟨d, hd, hdS, -⟩ := hcov
    exact h.coveredAt_entry hb' hS ((caughtState_below hbelow hc hd).trans hdS)
  | raise _ hh hb' ih =>
    obtain ⟨A, hA, hbelow⟩ := ih.below
    obtain ⟨_, -, -, hok, hlocals, -⟩ :=
      h.point ih.block hA (List.getElem?_eq_getElem ih.position)
    have hhA := (innermostHandler_congr hbelow.catches.symm).trans hh
    obtain ⟨H, hH, hHlocals⟩ := hlocals _ _ hhA
    obtain ⟨H', hH', hHstack, hHcatches⟩ := hok.handlers _ _ (mem_of_innermostHandler hhA)
    rw [hH] at hH'
    cases hH'
    exact h.coveredAt_entry hb' hH (unwindState_below hbelow hHlocals hHstack hHcatches)

end Solved

/-! ## Verified functions -/

theorem prove_eq_ok {maxWorkUnits : Nat} {is : List Instruction} {cfg : ControlFlowGraph}
    (hne : is ≠ []) (h : prove fuel snapshot is cfg maxWorkUnits = .ok proof) :
    ∃ p, proveEntries fuel (proveContext snapshot is cfg maxWorkUnits) = .ok p ∧
      proof = { before := p.before, after := p.after, visited := p.visited,
                handlers := p.handlers, steps := p.steps } := by
  unfold prove at h
  rw [if_neg (by simpa using hne)] at h
  obtain ⟨p, hp, h⟩ := Outcome.bind_eq_ok.mp h
  exact ⟨p, hp, (Except.ok.inj h).symm⟩

theorem decodeInstructions_covers {is : List Instruction}
    (h : decodeInstructions table snapshot limits = .ok is) :
    Covers snapshot.bytecode.length 0 is := by
  obtain ⟨-, hencoded, hbytes⟩ := decodeInstructions_iff.mp h
  have hcovers := hencoded.covers
  rwa [hbytes, Nat.zero_add] at hcovers

section

variable (h : Verification table fuel snapshot limits f proof)

include h

theorem Verification.cfg_ok :
    f.cfg.Ok f.instructions :=
  buildCfg_ok (decodeInstructions_covers h.decoded) h.cfg_built

theorem Verification.instructions_ne :
    f.instructions ≠ [] := by
  intro hempty
  have hbuilt := h.cfg_built
  rw [hempty] at hbuilt
  cases hbuilt

theorem Verification.solved :
    ∃ p, proveEntries fuel (f.context limits.maxWorkUnits) = .ok p ∧
      Solved f limits.maxWorkUnits p ∧
      proof = { before := p.before, after := p.after, visited := p.visited,
                handlers := p.handlers, steps := p.steps } := by
  have hcov := decodeInstructions_covers h.decoded
  have hok := h.cfg_ok
  obtain ⟨p, hp, hproof⟩ := prove_eq_ok h.instructions_ne h.proved
  rw [← h.snapshot_eq] at hp
  obtain ⟨hinv, hclosed⟩ :=
    @proveEntries_closed (f.context limits.maxWorkUnits) fuel p hok hcov.sorted hp
  exact ⟨p, hp, ⟨hok, hcov.sorted, hinv, hclosed⟩, hproof⟩

end

theorem buildOsrPoints_mem :
    ∀ {pcs : List Nat} {points : List OsrPoint}, buildOsrPoints snapshot proof pcs = .ok points →
      ∀ point ∈ points, point.pc ∈ pcs ∧ ∃ state, proof.before.get? point.pc = some state ∧
        point.liveSlots = state.liveSlots snapshot
  | [], _, h, point, hmem => by
    cases h
    cases hmem
  | pc :: pcs, _, h, point, hmem => by
    simp only [buildOsrPoints, Outcome.bind_eq_ok, Outcome.okOr_eq_ok] at h
    obtain ⟨state, hstate, rest, hrest, h⟩ := h
    cases h
    rcases List.mem_cons.mp hmem with rfl | hmem
    · exact ⟨by simp, state, hstate, rfl⟩
    · obtain ⟨hpc, hpoint⟩ := buildOsrPoints_mem hrest point hmem
      exact ⟨List.mem_cons_of_mem _ hpc, hpoint⟩

/-- No path through a verified function underflows or outgrows the declared
stack; all paths that reach an instruction agree on depth and catches; and the
kinds on each are covered by the verifier's state there, which is the block's
entry carried forward and is what the published loop-header states and catch
offsets are read from. -/
theorem verified_paths_covered {table : OpcodeTable} {fuel : Nat} {snapshot : CompileSnapshot}
    {limits : VerifyLimits} {f : VerifiedFunction}
    (h : verify table fuel snapshot limits = .ok f) :
    ∃ p, proveEntries fuel (f.context limits.maxWorkUnits) = .ok p ∧
      ∀ i s, ReachesInstruction f i s →
        s.stack.length ≤ snapshot.stackSize.toNat ∧
        (∃ s', transfer snapshot i s = .ok s' ∧ s'.stack.length ≤ snapshot.stackSize.toNat) ∧
        (∀ t, ReachesInstruction f i t → t.stack.length = s.stack.length ∧ t.catches = s.catches) ∧
        ∃ b n A, (b.instructions f.instructions)[n]? = some i ∧ HoldsAt f p b n A ∧ s.Below A ∧
          f.exceptionHandler i.pc = A.innermostCatch ∧
          ∀ point ∈ f.osrPoints, point.pc = i.pc → point.liveSlots = A.liveSlots snapshot := by
  obtain ⟨proof, hver⟩ := verify_eq_ok h
  obtain ⟨p, hp, hsolved, hproof⟩ := hver.solved
  have hsnap := hver.snapshot_eq
  refine ⟨p, hp, fun i s hs => ?_⟩
  obtain ⟨b, n, hreach, hi⟩ := hs
  have hcov := hsolved.reaches_covered hreach
  obtain ⟨A, hA, hbelow⟩ := hcov.below
  obtain ⟨A', hA', hstep, hok, -, hbefore, -⟩ := hsolved.point hcov.block hA hi
  obtain ⟨s', hs', hbelow'⟩ := transfer_below hbelow hA'
  subst hsnap
  refine ⟨?_, ⟨s', hs', transfer_stack_le hs'⟩, ?_, b, n, A, hi, hA, hbelow, ?_, ?_⟩
  · rw [hbelow.stack.length_eq]
    exact hok.stack
  · rintro t ⟨b', n', hreach', hi'⟩
    have hcov' := hsolved.reaches_covered hreach'
    obtain ⟨rfl, rfl⟩ :=
      same_place hsolved.cfg_ok hsolved.sorted hcov.block hcov'.block hi hi' rfl
    obtain ⟨B, hB, hbelow''⟩ := hcov'.below
    obtain ⟨E, hE, hA⟩ := hA
    obtain ⟨E', hE', hB⟩ := hB
    rw [hE] at hE'
    cases hE'
    rw [hA] at hB
    cases hB
    exact ⟨hbelow''.stack.length_eq.trans hbelow.stack.length_eq.symm,
      hbelow''.catches.trans hbelow.catches.symm⟩
  · rw [VerifiedFunction.exceptionHandler, hver.handlers_eq, hproof]
    exact hsolved.invariant.tracked.handlers _ hstep
  · intro point hpoint hpc
    obtain ⟨hmem, state, hstate, hslots⟩ := buildOsrPoints_mem hver.osrPoints_built point hpoint
    -- a published point is a loop header, where the verifier keeps its state
    have hheader : i.pc ∈ (f.context limits.maxWorkUnits).beforePoints := by
      obtain ⟨hstart, hfilter⟩ := List.mem_filter.mp hmem
      rw [Bool.and_eq_true] at hfilter
      rw [← hpc]
      simp only [VerifiedFunction.context, proveContext, OrdSet.mem_ofList, List.mem_append,
        List.mem_filter]
      exact .inr ⟨hstart, hfilter.1⟩
    rw [hproof, hpc, hbefore hheader] at hstate
    cases hstate
    exact hslots

/-! ## Two paths with different kinds -/

/-- `if (true) x = 0; return x`:
`push_true; if_false8 5; push_0; put_loc0; 5: get_loc0; return`. -/
def joinBytecode : List UInt8 := [10, 240, 3, 186, 207, 203, 40]

/-- The verifier accepts `if (true) x = 0; return x`. -/
theorem joinBytecode_verified : (verify sampleTable 10 (sampleSnapshot joinBytecode 0 1 1)
    VerifyLimits.default).toOption.isSome = true := by
  decide

/-- The function the verifier makes of it. -/
def joinFunction : VerifiedFunction :=
  (verify sampleTable 10 (sampleSnapshot joinBytecode 0 1 1) VerifyLimits.default).toOption.get
    joinBytecode_verified

theorem verify_joinBytecode : verify sampleTable 10 (sampleSnapshot joinBytecode 0 1 1)
    VerifyLimits.default = .ok joinFunction := rfl

def joinReturn : Instruction := ⟨6, ⟨40, .returnOp, 1, 1, 0, .none⟩, [40]⟩

/-- The path around the assignment returns a value of unknown kind. -/
theorem joinFunction_skips :
    ReachesInstruction joinFunction joinReturn ⟨[.tagged], [.tagged], []⟩ := by
  have hbranch : Reaches joinFunction _ 1 ⟨[.tagged], [.tagged], []⟩ :=
    .next (.entry rfl) rfl rfl (by decide)
  have hjoin : Reaches joinFunction _ 0 ⟨[.tagged], [], []⟩ :=
    .edge hbranch rfl rfl rfl (by decide : 5 ∈ [3, 5]) (by decide) rfl
  exact ⟨_, 1, .next hjoin rfl rfl (by decide), rfl⟩

/-- The path through the assignment returns an integer. -/
theorem joinFunction_assigns :
    ReachesInstruction joinFunction joinReturn ⟨[.int32], [.int32], []⟩ := by
  have hbranch : Reaches joinFunction _ 1 ⟨[.tagged], [.tagged], []⟩ :=
    .next (.entry rfl) rfl rfl (by decide)
  have hassign : Reaches joinFunction _ 1 ⟨[.tagged], [.int32], []⟩ :=
    .next (.edge hbranch rfl rfl rfl (by decide : 3 ∈ [3, 5]) (by decide) rfl)
      rfl rfl (by decide)
  have hjoin : Reaches joinFunction _ 0 ⟨[.int32], [], []⟩ :=
    .edge hassign rfl rfl rfl (by decide : 5 ∈ [5]) (by decide) rfl
  exact ⟨_, 1, .next hjoin rfl rfl (by decide), rfl⟩

/-- Two paths through a verified function can reach an instruction with
different kinds on the operand stack. -/
theorem paths_differ_in_kinds : ∃ table fuel snapshot limits f i s t,
    verify table fuel snapshot limits = .ok f ∧ ReachesInstruction f i s ∧
      ReachesInstruction f i t ∧ s.stack ≠ t.stack :=
  ⟨_, _, _, _, joinFunction, joinReturn, _, _, verify_joinBytecode, joinFunction_skips,
    joinFunction_assigns, by decide⟩

/-- Both paths agree on the depth, and the verifier's state covers them. -/
theorem joinFunction_paths_covered : ∃ p,
    proveEntries 10 (joinFunction.context VerifyLimits.default.maxWorkUnits) = .ok p ∧
      ∃ b n A, HoldsAt joinFunction p b n A ∧
        AbstractState.Below ⟨[.int32], [.int32], []⟩ A ∧
        joinFunction.exceptionHandler 6 = A.innermostCatch := by
  obtain ⟨p, hp, hpaths⟩ := verified_paths_covered verify_joinBytecode
  obtain ⟨-, -, -, b, n, A, -, hA, hbelow, hhandler, -⟩ := hpaths _ _ joinFunction_assigns
  exact ⟨p, hp, b, n, A, hA, hbelow, hhandler⟩

end QuickJit
