import QuickJit.Bytecode.Paths
import QuickJit.Lib.Limit

/-
  What the worklist costs.

  The limit on the work decides whether the worklist ends, and nothing else:
  `proveEntries_limited` gives the same run under every limit that covers what
  the run used.

  In a function without `catch`, `gosub` and `ret` no handler is ever live, so
  a block's entry changes only along its incoming edges, and each change turns
  a local to `Tagged` for good. `credit` counts the turns a block can still
  have: those in the queue and one for each local that is not `Tagged` yet.
  Every turn is paid from it, which bounds the turns by the number of locals
  and the work by that and the number of instructions.

  `verify_within` puts the two together: a function that was verified is
  verified again, with the same result, under limits that cover it.
-/

namespace QuickJit

open OrdMap Outcome

variable {expected : AbstractState} {joined : AbstractState × Bool} {bytes : List UInt8}
  {cost' units work : Nat} {table : OpcodeTable} {proof : StateProof}

variable {s : AbstractState} {i : Instruction} {is : List Instruction} {cost pc : Nat}

/-- The same function under another limit. -/
def ProveContext.withLimit (ctx : ProveContext) (limit : Nat) : ProveContext :=
  { ctx with maxWorkUnits := limit }

section

variable (ctx : ProveContext) (limit : Nat)

@[simp] theorem withLimit_snapshot : (ctx.withLimit limit).snapshot = ctx.snapshot := rfl

@[simp] theorem withLimit_instructions :
    (ctx.withLimit limit).instructions = ctx.instructions := rfl

@[simp] theorem withLimit_cfg : (ctx.withLimit limit).cfg = ctx.cfg := rfl

end

/-- The work charged so far, as the counter shows it. -/
def Proving.spent (p : Proving) : Nat := min p.used usizeMax

section Limits

variable {ctx : ProveContext} {p : Proving}

theorem charge_limited (pc units : Nat) (p : Proving) :
    Limited p.spent Proving.spent fun limit => charge (ctx.withLimit limit) pc units p := by
  intro limit p' h
  unfold charge at h
  dsimp only at h
  rw [ite_reject_eq_ok] at h
  cases h.2
  have hspent : ({ p with used := satAdd p.used units } : Proving).spent = satAdd p.used units :=
    Nat.min_eq_left (Nat.min_le_right _ _)
  rw [hspent]
  refine ⟨?_, le_max_of_le_right (Nat.not_lt.mp h.1), fun limit' hlimit => ?_⟩
  · unfold Proving.spent satAdd
    omega
  · unfold charge
    exact ite_reject_eq_ok.mpr ⟨Nat.not_lt.mpr hlimit, rfl⟩

theorem recordBefore_limited (i : Instruction) (s : AbstractState) (p : Proving) :
    Limited p.spent Proving.spent fun limit => recordBefore (ctx.withLimit limit) i s p :=
  .ite (p := i.pc ∈ ctx.beforePoints) (fun _ => (charge_limited _ _ p).bind fun _ => .pure rfl)
    fun _ => .pure rfl

theorem recordAfter_limited (i : Instruction) (s : AbstractState) (p : Proving) :
    Limited p.spent Proving.spent fun limit => recordAfter (ctx.withLimit limit) i s p :=
  .ite (p := i.pc ∈ ctx.afterPoints) (fun _ => (charge_limited _ _ p).bind fun _ => .pure rfl)
    fun _ => .pure rfl

theorem joinHandler_limited (i : Instruction) (s : AbstractState) (p : Proving) :
    Limited p.spent Proving.spent fun limit => joinHandler (ctx.withLimit limit) i s p := by
  unfold joinHandler
  cases s.innermostHandler with
  | none => exact .pure rfl
  | some handler =>
    refine (charge_limited _ _ p).bind fun p' => ?_
    exact .after fun expected _ => .after fun joined _ => .pure rfl

theorem proveInstruction_limited (ps : Proving × AbstractState) (i : Instruction) :
    Limited ps.1.spent (fun ps => ps.1.spent)
      fun limit => proveInstruction (ctx.withLimit limit) ps i := by
  simp only [proveInstruction, withLimit_snapshot]
  refine (charge_limited _ _ ps.1).bind fun p₁ => ?_
  refine (recordBefore_limited i ps.2 p₁).bind fun p₂ => ?_
  refine Limited.bind (m := Proving.spent) (joinHandler_limited i ps.2 _) fun p₃ => ?_
  refine .after fun s' _ => ?_
  exact Limited.bind (m := Proving.spent) (recordAfter_limited i s' _)
    fun p₄ => .pure rfl

theorem proveEdge_limited (tail : Instruction) (s : AbstractState) (p : Proving) (successor : Nat) :
    Limited p.spent Proving.spent fun limit => proveEdge (ctx.withLimit limit) tail s p successor := by
  unfold proveEdge
  refine .ite (fun _ => ?_) fun _ => ?_
  · unfold catchEdge
    refine .after fun incoming _ => (charge_limited _ _ p).bind fun p' => ?_
    cases p'.entries.get? successor with
    | none => exact .pure rfl
    | some expected =>
      exact .ite (fun _ => .fail _) fun _ => .after fun joined _ => .pure rfl
  · simp only [ordinaryEdge, withLimit_cfg]
    refine (charge_limited _ _ p).bind fun p' => ?_
    cases p'.entries.get? successor with
    | none => exact .pure rfl
    | some expected => exact .after fun joined _ => .pure rfl

theorem proveBlock_limited (blockPc : Nat) (p : Proving) :
    Limited p.spent Proving.spent fun limit => proveBlock (ctx.withLimit limit) blockPc p := by
  simp only [proveBlock, withLimit_cfg, withLimit_instructions]
  refine .after fun block _ => .after fun entry _ => (charge_limited _ _ p).bind fun p₁ => ?_
  refine Limited.bind (m := fun ps => ps.1.spent)
    (.foldlM proveInstruction_limited _ (p₁, entry)) fun ps => ?_
  refine .after fun tail _ => .ite (fun _ => .fail _) fun _ => ?_
  exact .foldlM (proveEdge_limited tail ps.2) _ ps.1

theorem proveStep_limited (p : Proving) :
    Limited p.spent (fun o => (o.getD p).spent) fun limit => proveStep (ctx.withLimit limit) p := by
  unfold proveStep
  cases p.queue with
  | nil => exact .pure rfl
  | cons blockPc queue =>
    exact Limited.bind (m := Proving.spent) (proveBlock_limited blockPc { p with queue })
      fun p' => .pure rfl

/-- A run of the worklist is the run under every limit it does not exceed. -/
theorem proveEntries_limited (ctx : ProveContext) (fuel : Nat) :
    Limited 0 Proving.spent fun limit => proveEntries fuel (ctx.withLimit limit) := by
  simp only [proveEntries, withLimit_snapshot]
  refine Limited.bind (m := Proving.spent) ?_ fun p => .iterate proveStep_limited fuel p
  exact charge_limited _ _ (initialProving ctx.snapshot)

end Limits

/-! ## Functions without handlers -/

/-- No instruction opens a try region or calls a finally block. -/
def Plain (is : List Instruction) : Prop :=
  ∀ i ∈ is, i.name ≠ .catchOp ∧ i.name ≠ .gosub ∧ i.name ≠ .ret

instance (is : List Instruction) : Decidable (Plain is) :=
  inferInstanceAs (Decidable (∀ i ∈ is, i.name ≠ .catchOp ∧ i.name ≠ .gosub ∧ i.name ≠ .ret))

/-- The cells of the largest state. -/
def ProveContext.cells (ctx : ProveContext) : Nat :=
  ctx.snapshot.localCount.toNat + ctx.snapshot.stackSize.toNat

/-- A state of the frame's size in which no handler is live. -/
structure PlainState (ctx : ProveContext) (s : AbstractState) : Prop where
  locals : s.locals.length = ctx.snapshot.localCount.toNat
  stack : s.stack.length ≤ ctx.snapshot.stackSize.toNat
  catches : ∀ c ∈ s.catches, c.2 = none

section States

variable {ctx : ProveContext} {s s' : AbstractState} {i : Instruction}

theorem PlainState.cellCount_le (h : PlainState ctx s) : s.cellCount ≤ ctx.cells := by
  have := h.locals
  have := h.stack
  unfold AbstractState.cellCount satAdd ProveContext.cells
  omega

theorem PlainState.innermostHandler (h : PlainState ctx s) : s.innermostHandler = none := by
  cases hhandler : s.innermostHandler with
  | none => rfl
  | some handler =>
    obtain ⟨index, handlerPc⟩ := handler
    cases h.catches _ (mem_of_innermostHandler hhandler)

theorem PlainState.widens (h : PlainState ctx s) (hw : Widens s s') : PlainState ctx s' :=
  ⟨hw.locals.length_eq.symm.trans h.locals, hw.stack ▸ h.stack, hw.catches ▸ h.catches⟩

theorem trimCatches_subset {height : Nat} {catches : List (Nat × Option Nat)} :
    trimCatches height catches ⊆ catches :=
  (List.rdropWhile_prefix _ _).subset

theorem PlainState.transfer (h : PlainState ctx s) (hname : i.name ≠ .catchOp)
    (hstep : QuickJit.transfer ctx.snapshot i s = .ok s') : PlainState ctx s' := by
  refine ⟨(transfer_locals_length hstep).trans h.locals, transfer_stack_le hstep, fun c hc => ?_⟩
  cases (transfer_eq_ok.mp hstep).2.2 with
  | nipCatch _ hnip =>
    obtain ⟨_, _, _, -, -, -, rfl⟩ := hnip
    exact h.catches c (List.mem_of_mem_dropLast hc)
  | next => exact h.catches c hc
  | load => exact h.catches c (trimCatches_subset hc)
  | @push locals pushed live _ _ _ _ hpush =>
    cases live with
    | none => exact h.catches c (trimCatches_subset hc)
    | some handler =>
      rcases List.mem_append.mp hc with hc | hc
      · exact h.catches c (trimCatches_subset hc)
      · obtain rfl := List.mem_singleton.mp hc
        cases handler with
        | none => rfl
        | some target => exact absurd ((transferPush_live hpush).2 rfl).1 hname

end States

/-! ## The credit of a block -/

/-- The locals that can still be widened. -/
def unsettled (locals : List SlotKind) : Nat := locals.countP fun kind => decide (kind ≠ .tagged)

/-- How often a block can still be taken from the queue. -/
def credit (ctx : ProveContext) (p : Proving) (pc : Nat) : Nat :=
  match p.entries.get? pc with
  | none => ctx.snapshot.localCount.toNat + 1
  | some E => p.queue.count pc + unsettled E.locals

/-- The worklist of a function without handlers. -/
structure PlainProving (ctx : ProveContext) (p : Proving) : Prop where
  entries : ∀ pc E, p.entries.get? pc = some E → PlainState ctx E
  queued : ∀ pc ∈ p.queue, ∃ E, p.entries.get? pc = some E

/-- A stretch of the worklist that costs no more than `cost` and nobody's
credit. -/
structure Affords (ctx : ProveContext) (cost : Nat) (p p' : Proving) : Prop where
  plain : PlainProving ctx p'
  used : p'.used ≤ p.used + cost
  credit : ∀ pc, credit ctx p' pc ≤ credit ctx p pc

section Credit

variable {ctx : ProveContext} {p p' p'' : Proving}

theorem Affords.trans (h : Affords ctx cost p p') (h' : Affords ctx cost' p' p'') :
    Affords ctx (cost + cost') p p'' :=
  ⟨h'.plain, by have := h.used; have := h'.used; omega,
    fun pc => (h'.credit pc).trans (h.credit pc)⟩

theorem Affords.mono (h : Affords ctx cost p p') (hle : cost ≤ cost') :
    Affords ctx cost' p p' :=
  ⟨h.plain, h.used.trans (Nat.add_le_add_left hle _), h.credit⟩

/-- Work that leaves the entries and the queue alone. -/
theorem Affords.of_eq (hp : PlainProving ctx p) (hentries : p'.entries = p.entries)
    (hqueue : p'.queue = p.queue) (hused : p'.used ≤ p.used + cost) :
    Affords ctx cost p p' where
  plain := ⟨hentries ▸ hp.entries, hentries ▸ hqueue ▸ hp.queued⟩
  used := hused
  credit pc := by
    unfold QuickJit.credit
    rw [hentries, hqueue]

/-- Only the entries, the queue and the counter matter. -/
theorem Affords.congr (h : Affords ctx cost p p') (hentries : p''.entries = p'.entries)
    (hqueue : p''.queue = p'.queue) (hused : p''.used = p'.used) : Affords ctx cost p p'' := by
  have hsame : Affords ctx 0 p' p'' := .of_eq h.plain hentries hqueue (Nat.le_of_eq hused)
  exact h.trans hsame

theorem charge_used (h : charge ctx pc units p = .ok p') :
    p' = { p with used := p'.used } ∧ p'.used ≤ p.used + units := by
  unfold charge at h
  rw [ite_reject_eq_ok] at h
  cases h.2
  exact ⟨rfl, Nat.min_le_left _ _⟩

theorem joinKind_tagged {e a joined : SlotKind} (h : joinKind e a = some joined) :
    joined = .tagged := by
  cases e <;> cases a <;> cases h <;> rfl

theorem unsettled_cons (kind : SlotKind) (locals : List SlotKind) :
    unsettled (kind :: locals) = unsettled locals + if kind = .tagged then 0 else 1 := by
  unfold unsettled
  rw [List.countP_cons]
  by_cases h : kind = .tagged <;> simp [h]

/-- Joining changes locals to `Tagged` only, and says so. -/
theorem mergeLocals_unsettled :
    ∀ {slot : Nat} {es as joined : List SlotKind} {changed : Bool},
      mergeLocals pc slot es as = .ok (joined, changed) →
      unsettled joined + changed.toNat ≤ unsettled es
  | _, [], _, _, _, h => by
    cases h
    exact Nat.le_refl _
  | _, e :: es, [], _, _, h => by
    cases h
    exact Nat.le_refl _
  | slot, e :: es, a :: as, _, _, h => by
    simp only [mergeLocals, bind_eq_ok, Prod.exists] at h
    obtain ⟨kind, hkind, rest, changed, hrest, hresult⟩ := h
    cases hresult
    have hle := mergeLocals_unsettled hrest
    rw [unsettled_cons, unsettled_cons]
    by_cases hsame : kind = e
    · rw [hsame, decide_eq_false (not_not.mpr rfl), Bool.false_or]
      omega
    · have htagged : kind = .tagged := by
        unfold mergeKind at hkind
        split at hkind
        · exact absurd (Except.ok.inj hkind).symm hsame
        · exact joinKind_tagged (okOr_eq_ok.mp hkind)
      have hne : e ≠ .tagged := fun h => hsame (htagged.trans h.symm)
      rw [decide_eq_true hsame, Bool.true_or, Bool.toNat_true, if_pos htagged, if_neg hne]
      omega

theorem mergeState_unsettled {actual : AbstractState}
    (h : mergeState pc expected actual = .ok joined) :
    unsettled joined.1.locals + joined.2.toNat ≤ unsettled expected.locals := by
  unfold mergeState at h
  rw [ite_reject_eq_ok, ite_reject_eq_ok] at h
  obtain ⟨-, -, h⟩ := h
  split at h
  · cases h
  · simp only [bind_eq_ok, Prod.exists] at h
    obtain ⟨locals, changed, hmerge, hjoined⟩ := h
    cases hjoined
    exact mergeLocals_unsettled hmerge

theorem count_queue_ne {queue : List Nat} {pc' : Nat} (h : pc ≠ pc') :
    (queue ++ [pc]).count pc' = queue.count pc' := by
  rw [List.count_append, List.count_singleton, if_neg (by simpa using h), Nat.add_zero]

section

variable (hp : PlainProving ctx p)

include hp

/-- A widened entry pays for its place in the queue. -/
theorem updateEntry_affords (hexpected : p.entries.get? pc = some expected)
    (hplain : PlainState ctx joined.1)
    (hpaid : unsettled joined.1.locals + joined.2.toNat ≤ unsettled expected.locals) :
    Affords ctx 0 p (updateEntry p pc joined) where
  plain := by
    refine ⟨fun pc' E hE => ?_, fun pc' hpc' => ?_⟩
    · rcases get?_insert_cases hE with ⟨-, rfl⟩ | hE
      · exact hplain
      · exact hp.entries pc' E hE
    · simp only [updateEntry, get?_insert]
      by_cases heq : pc = pc'
      · exact ⟨joined.1, if_pos heq⟩
      · rw [if_neg heq]
        refine hp.queued pc' ?_
        simp only [updateEntry] at hpc'
        split at hpc'
        · exact (List.mem_append.mp hpc').resolve_right fun h => heq (List.mem_singleton.mp h).symm
        · exact hpc'
  used := Nat.le_refl _
  credit pc' := by
    unfold QuickJit.credit
    simp only [updateEntry, get?_insert]
    by_cases heq : pc = pc'
    · subst heq
      rw [if_pos rfl, hexpected]
      cases hchanged : joined.2 with
      | false =>
        rw [hchanged, Bool.toNat_false] at hpaid
        simpa using hpaid
      | true =>
        rw [hchanged, Bool.toNat_true] at hpaid
        simp only [if_true, List.count_append, List.count_singleton_self]
        omega
    · rw [if_neg heq]
      have hcount : (if joined.2 = true then p.queue ++ [pc] else p.queue).count pc' =
          p.queue.count pc' := by
        split
        · exact count_queue_ne heq
        · rfl
      rw [hcount]

/-- The first entry of a block has its turns before it. -/
theorem newEntry_affords {E : AbstractState} (hnone : p.entries.get? pc = none)
    (hplain : PlainState ctx E) :
    Affords ctx 0 p (newEntry p pc E) where
  plain := by
    refine ⟨fun pc' E' hE' => ?_, fun pc' hpc' => ?_⟩
    · rcases get?_insert_cases hE' with ⟨-, rfl⟩ | hE'
      · exact hplain
      · exact hp.entries pc' E' hE'
    · simp only [newEntry, get?_insert]
      by_cases heq : pc = pc'
      · exact ⟨E, if_pos heq⟩
      · rw [if_neg heq]
        exact hp.queued pc' ((List.mem_append.mp hpc').resolve_right
          fun h => heq (List.mem_singleton.mp h).symm)
  used := Nat.le_refl _
  credit pc' := by
    unfold QuickJit.credit
    simp only [newEntry, get?_insert]
    by_cases heq : pc = pc'
    · subst heq
      have hcount : p.queue.count pc = 0 := by
        refine List.count_eq_zero.mpr fun hmem => ?_
        obtain ⟨E', hE'⟩ := hp.queued pc hmem
        rw [hnone] at hE'
        cases hE'
      have hle : unsettled E.locals ≤ ctx.snapshot.localCount.toNat :=
        hplain.locals ▸ List.countP_le_length
      rw [if_pos rfl, hnone, List.count_append, hcount, List.count_singleton_self]
      dsimp only
      omega
    · rw [if_neg heq, count_queue_ne heq]

theorem charge_affords (hunits : units ≤ cost) (h : charge ctx pc units p = .ok p') :
    Affords ctx cost p p' := by
  obtain ⟨heq, hused⟩ := charge_used h
  refine .of_eq hp ?_ ?_ (hused.trans (Nat.add_le_add_left hunits _))
  · rw [heq]
  · rw [heq]

theorem ordinaryEdge_affords {successor : Nat} (hs : PlainState ctx s)
    (h : ordinaryEdge ctx s p successor = .ok p') :
    Affords ctx ctx.cells p p' := by
  have hincoming : PlainState ctx (edgeState ctx.cfg successor s) :=
    hs.widens (edgeState_widens ctx.cfg successor s)
  simp only [ordinaryEdge, bind_eq_ok] at h
  obtain ⟨p₁, hcharge, h⟩ := h
  have hcharged := charge_affords hp hincoming.cellCount_le hcharge
  split at h
  case h_1 expected hexpected =>
    obtain ⟨joined, hjoined, h⟩ := bind_eq_ok.mp h
    cases h
    have hold : PlainState ctx expected := hcharged.plain.entries _ _ hexpected
    obtain ⟨hjoins, -, -⟩ := mergeState_joins (hold.locals.trans hincoming.locals.symm) hjoined
    exact hcharged.trans (updateEntry_affords hcharged.plain hexpected (hold.widens hjoins.widens)
      (mergeState_unsettled hjoined))
  case h_2 hnone =>
    cases h
    exact hcharged.trans (newEntry_affords hcharged.plain hnone hincoming)

/-- A state is recorded at some of the instructions. -/
theorem record_affords {P : Prop} [Decidable P] {g : Proving → Proving} (hs : PlainState ctx s)
    (h : (if P then charge ctx pc s.cellCount p >>= fun p => .ok (g p) else .ok p) = .ok p')
    (hg : ∀ p, (g p).entries = p.entries ∧ (g p).queue = p.queue ∧ (g p).used = p.used) :
    Affords ctx ctx.cells p p' := by
  split at h
  · obtain ⟨p₁, hcharge, h⟩ := bind_eq_ok.mp h
    cases h
    exact (charge_affords hp hs.cellCount_le hcharge).congr (hg p₁).1 (hg p₁).2.1 (hg p₁).2.2
  · cases h
    exact .of_eq hp rfl rfl (Nat.le_add_right _ _)

end

/-- What an instruction costs: itself, its state and the two recorded ones. -/
theorem proveInstruction_affords {s' : AbstractState} (hname : i.name ≠ .catchOp)
    (hp : PlainProving ctx p) (hs : PlainState ctx s)
    (h : proveInstruction ctx (p, s) i = .ok (p', s')) :
    Affords ctx (1 + 3 * ctx.cells) p p' ∧ PlainState ctx s' := by
  simp only [proveInstruction, bind_eq_ok] at h
  obtain ⟨p₁, hcharge, p₂, hbefore, p₃, hhandler, s₁, hstep, p₄, hafter, h⟩ := h
  cases h
  have hs' := hs.transfer hname hstep
  have hunits : satAdd 1 s.cellCount ≤ 1 + ctx.cells := by
    have := hs.cellCount_le
    unfold satAdd
    omega
  have h₁ := charge_affords hp hunits hcharge
  have h₂ := record_affords h₁.plain hs hbefore fun _ => ⟨rfl, rfl, rfl⟩
  rw [joinHandler, hs.innermostHandler] at hhandler
  cases hhandler
  have hvisited : Affords ctx 0 p₂ { recordVisit i s p₂ with
      steps := (recordVisit i s p₂).steps ++ [⟨i, s, s'⟩] } :=
    .of_eq h₂.plain rfl rfl (Nat.le_refl _)
  have h₃ := record_affords hvisited.plain hs' hafter fun _ => ⟨rfl, rfl, rfl⟩
  exact ⟨(((h₁.trans h₂).trans hvisited).trans h₃).mono (by omega), hs'⟩

theorem proveBody_affords : ∀ {body : List Instruction} {p p' : Proving} {s s' : AbstractState},
    (∀ i ∈ body, i.name ≠ .catchOp) → PlainProving ctx p → PlainState ctx s →
    body.foldlM (proveInstruction ctx) (p, s) = .ok (p', s') →
      Affords ctx (body.length * (1 + 3 * ctx.cells)) p p' ∧ PlainState ctx s'
  | [], p, p', s, s', _, hp, hs, h => by
    cases h
    exact ⟨.of_eq hp rfl rfl (Nat.le_add_right _ _), hs⟩
  | i :: body, p, p', s, s', hnames, hp, hs, h => by
    rw [List.foldlM_cons, bind_eq_ok] at h
    obtain ⟨⟨p₁, s₁⟩, hi, h⟩ := h
    obtain ⟨hname, hnames⟩ := List.forall_mem_cons.mp hnames
    obtain ⟨hfirst, hs₁⟩ := proveInstruction_affords hname hp hs hi
    obtain ⟨hrest, hs'⟩ := proveBody_affords hnames hfirst.plain hs₁ h
    refine ⟨(hfirst.trans hrest).mono (Nat.le_of_eq ?_), hs'⟩
    rw [List.length_cons, Nat.add_mul, Nat.one_mul, Nat.add_comm]

theorem proveEdges_affords {tail : Instruction} (hname : tail.name ≠ .catchOp)
    (hs : PlainState ctx s) : ∀ {successors : List Nat} {p p' : Proving}, PlainProving ctx p →
    successors.foldlM (proveEdge ctx tail s) p = .ok p' →
      Affords ctx (successors.length * ctx.cells) p p'
  | [], p, p', hp, h => by
    cases h
    exact .of_eq hp rfl rfl (Nat.le_add_right _ _)
  | successor :: successors, p, p', hp, h => by
    rw [List.foldlM_cons, bind_eq_ok] at h
    obtain ⟨p₁, hedge, h⟩ := h
    have hcatch : catchTarget tail ≠ some successor := by
      rw [catchTarget, if_neg hname]
      exact (Option.some_ne_none successor).symm
    rw [proveEdge, if_neg hcatch] at hedge
    have hfirst := ordinaryEdge_affords hp hs hedge
    refine (hfirst.trans (proveEdges_affords hname hs hfirst.plain h)).mono (Nat.le_of_eq ?_)
    rw [List.length_cons, Nat.add_mul, Nat.one_mul, Nat.add_comm]

end Credit

/-! ## Turns -/

def ControlFlowGraph.blockSize (cfg : ControlFlowGraph) (pc : Nat) : Nat :=
  match cfg.block pc with
  | some b => b.last - b.first
  | none => 0

/-- The positions of its instructions. -/
def ControlFlowGraph.blockPlaces (cfg : ControlFlowGraph) (pc : Nat) : Finset Nat :=
  match cfg.block pc with
  | some b => Finset.Ico b.first b.last
  | none => ∅

/-- A graph of a function without handlers: at most two edges leave a block. -/
structure PlainGraph (ctx : ProveContext) : Prop where
  ok : ctx.cfg.Ok ctx.instructions
  names : Plain ctx.instructions
  successors : ∀ b ∈ ctx.cfg.blocks, b.successors.length ≤ 2

section Turns

variable {ctx : ProveContext} {p p' : Proving}

/-- A turn costs its block's entry, its instructions and two edges; with an
instruction in every block that is at most six states for each. -/
theorem proveBlock_affords (hgraph : PlainGraph ctx) {blockPc : Nat} (hp : PlainProving ctx p)
    (h : proveBlock ctx blockPc p = .ok p') :
    Affords ctx (ctx.cfg.blockSize blockPc * (1 + 6 * ctx.cells)) p p' := by
  simp only [proveBlock, bind_eq_ok, expect_eq_ok, Prod.exists] at h
  obtain ⟨b, hblock, E, hE, p₁, hcharge, p₂, s, hbody, tail, htail, h⟩ := h
  rw [ite_reject_eq_ok] at h
  obtain ⟨-, hedges⟩ := h
  have hb := (hgraph.ok.block_iff.mp hblock).1
  have hentry := hp.entries blockPc E hE
  have hnames : ∀ i ∈ b.instructions ctx.instructions, i.name ≠ .catchOp := fun i hi =>
    (hgraph.names i (List.mem_of_mem_drop (List.mem_of_mem_take hi))).1
  have h₁ := charge_affords hp hentry.cellCount_le hcharge
  obtain ⟨h₂, hs⟩ := proveBody_affords hnames h₁.plain hentry hbody
  have h₃ := proveEdges_affords (hnames tail (List.mem_of_getLast? htail)) hs h₂.plain hedges
  refine ((h₁.trans h₂).trans h₃).mono ?_
  rw [BasicBlock.instructions_length hgraph.ok hb]
  have hsize : ctx.cfg.blockSize blockPc = b.last - b.first := by
    rw [ControlFlowGraph.blockSize, hblock]
  have hpos : 1 ≤ b.last - b.first := by
    have := hgraph.ok.first_lt hb
    omega
  have hsucc := Nat.mul_le_mul_right ctx.cells (hgraph.successors b hb)
  have hcells : ctx.cells ≤ (b.last - b.first) * ctx.cells := Nat.le_mul_of_pos_left _ hpos
  rw [hsize, Nat.mul_add, Nat.mul_add, Nat.mul_left_comm _ 3, Nat.mul_left_comm _ 6]
  omega

/-- The blocks a run of the worklist takes from the queue, in order. -/
def proveTurns (ctx : ProveContext) : Nat → Proving → List Nat
  | 0, _ => []
  | fuel + 1, p =>
    match proveStep ctx p with
    | .ok (some p') => p.queue.head?.toList ++ proveTurns ctx fuel p'
    | _ => []

/-- One turn: it is paid from the credit of its block. -/
theorem proveStep_affords (hgraph : PlainGraph ctx) (hp : PlainProving ctx p)
    (h : proveStep ctx p = .ok (some p')) :
    ∃ blockPc, p.queue.head? = some blockPc ∧ PlainProving ctx p' ∧
      p'.used ≤ p.used + ctx.cfg.blockSize blockPc * (1 + 6 * ctx.cells) ∧
      ∀ pc, [blockPc].count pc + credit ctx p' pc ≤ credit ctx p pc := by
  unfold proveStep at h
  split at h
  · cases h
  case h_2 blockPc queue hqueue =>
  obtain ⟨p₁, hturn, h⟩ := bind_eq_ok.mp h
  cases h
  have hqueued : ∀ pc ∈ queue, ∃ E, p.entries.get? pc = some E := fun pc hpc =>
    hp.queued pc (hqueue ▸ List.mem_cons_of_mem _ hpc)
  have hrun := proveBlock_affords (p := { p with queue }) hgraph ⟨hp.entries, hqueued⟩ hturn
  refine ⟨blockPc, by rw [hqueue]; rfl, hrun.plain, hrun.used, fun pc => ?_⟩
  have hle := hrun.credit pc
  have htaken : [blockPc].count pc + credit ctx { p with queue } pc ≤ credit ctx p pc := by
    unfold credit
    rw [hqueue]
    by_cases heq : blockPc = pc
    · subst heq
      obtain ⟨E, hE⟩ := hp.queued blockPc (hqueue ▸ List.mem_cons_self)
      simp only [hE, List.count_cons_self, List.count_nil]
      omega
    · have hne : (blockPc == pc) = false := by simpa using heq
      rw [List.count_cons, List.count_cons, hne]
      simp
  omega

/-- A whole run: no block has more turns than its credit, and the work is that
of its turns. -/
theorem run_affords (hgraph : PlainGraph ctx) : ∀ {fuel : Nat} {p r : Proving},
    PlainProving ctx p → Outcome.iterate (proveStep ctx) fuel p = .ok r →
      (∀ pc, (proveTurns ctx fuel p).count pc ≤ credit ctx p pc) ∧
      r.used ≤ p.used + ((proveTurns ctx fuel p).map fun pc =>
        ctx.cfg.blockSize pc * (1 + 6 * ctx.cells)).sum
  | fuel + 1, p, r, hp, h => by
    unfold Outcome.iterate at h
    unfold proveTurns
    split at h
    · cases h
    case h_2 hend =>
      cases h
      simp only [hend]
      exact ⟨fun _ => Nat.zero_le _, Nat.le_refl _⟩
    case h_3 p' hnext =>
      obtain ⟨blockPc, hhead, hp', hused, hcredit⟩ := proveStep_affords hgraph hp hnext
      obtain ⟨hcounts, hwork⟩ := run_affords hgraph hp' h
      simp only [hnext, hhead, Option.toList_some, List.cons_append, List.nil_append]
      refine ⟨fun pc => ?_, ?_⟩
      · have hone := hcredit pc
        have hrest := hcounts pc
        rw [List.count_cons]
        rw [List.count_singleton] at hone
        omega
      · rw [List.map_cons, List.sum_cons]
        omega

theorem mem_blockPlaces {k : Nat} :
    k ∈ ctx.cfg.blockPlaces pc ↔ ∃ b, ctx.cfg.block pc = some b ∧ b.first ≤ k ∧ k < b.last := by
  unfold ControlFlowGraph.blockPlaces
  cases ctx.cfg.block pc with
  | none => simp
  | some b => simp

theorem card_blockPlaces (pc : Nat) :
    (ctx.cfg.blockPlaces pc).card = ctx.cfg.blockSize pc := by
  unfold ControlFlowGraph.blockPlaces ControlFlowGraph.blockSize
  cases ctx.cfg.block pc with
  | none => rfl
  | some b => exact Nat.card_Ico _ _

/-- No instruction is counted for two blocks. -/
theorem sum_blockSize_le (hok : ctx.cfg.Ok ctx.instructions) (pcs : Finset Nat) :
    ∑ pc ∈ pcs, ctx.cfg.blockSize pc ≤ ctx.instructions.length := by
  have hdisjoint : ∀ pc ∈ pcs, ∀ pc' ∈ pcs, pc ≠ pc' →
      Disjoint (ctx.cfg.blockPlaces pc) (ctx.cfg.blockPlaces pc') := by
    intro pc _ pc' _ hne
    refine Finset.disjoint_left.mpr fun k hk hk' => hne ?_
    obtain ⟨b, hblock, hfirst, hlast⟩ := mem_blockPlaces.mp hk
    obtain ⟨b', hblock', hfirst', hlast'⟩ := mem_blockPlaces.mp hk'
    obtain ⟨hb, hpc⟩ := hok.block_iff.mp hblock
    obtain ⟨hb', hpc'⟩ := hok.block_iff.mp hblock'
    rw [← hpc, ← hpc', hok.unique hb hb' hfirst hlast hfirst' hlast']
  have hsub : pcs.biUnion ctx.cfg.blockPlaces ⊆ Finset.range ctx.instructions.length := by
    intro k hk
    obtain ⟨pc, -, hk⟩ := Finset.mem_biUnion.mp hk
    obtain ⟨b, hblock, -, hlast⟩ := mem_blockPlaces.mp hk
    have hle := hok.last_le (hok.block_iff.mp hblock).1
    exact Finset.mem_range.mpr (by omega)
  calc ∑ pc ∈ pcs, ctx.cfg.blockSize pc
      = ∑ pc ∈ pcs, (ctx.cfg.blockPlaces pc).card :=
        Finset.sum_congr rfl fun pc _ => (card_blockPlaces pc).symm
    _ = (pcs.biUnion ctx.cfg.blockPlaces).card := (Finset.card_biUnion hdisjoint).symm
    _ ≤ (Finset.range ctx.instructions.length).card := Finset.card_le_card hsub
    _ = ctx.instructions.length := Finset.card_range _

/-- The turns of a run, each block as often as it was taken. -/
theorem sum_turns_le (hok : ctx.cfg.Ok ctx.instructions) {turns : List Nat} {visits : Nat}
    (hvisits : ∀ pc, turns.count pc ≤ visits) (cost : Nat) :
    (turns.map fun pc => ctx.cfg.blockSize pc * cost).sum ≤
      ctx.instructions.length * visits * cost := by
  rw [Finset.sum_list_map_count]
  calc ∑ pc ∈ turns.toFinset, turns.count pc • (ctx.cfg.blockSize pc * cost)
      ≤ ∑ pc ∈ turns.toFinset, ctx.cfg.blockSize pc * (visits * cost) := by
        refine Finset.sum_le_sum fun pc _ => ?_
        rw [smul_eq_mul, Nat.mul_left_comm]
        exact Nat.mul_le_mul_left _ (Nat.mul_le_mul_right _ (hvisits pc))
    _ = (∑ pc ∈ turns.toFinset, ctx.cfg.blockSize pc) * (visits * cost) :=
        (Finset.sum_mul _ _ _).symm
    _ ≤ ctx.instructions.length * (visits * cost) :=
        Nat.mul_le_mul_right _ (sum_blockSize_le hok _)
    _ = ctx.instructions.length * visits * cost := (Nat.mul_assoc _ _ _).symm

theorem initial_plain (ctx : ProveContext) (used : Nat) :
    PlainProving ctx { initialProving ctx.snapshot with used } := by
  refine ⟨fun pc E hE => ?_, fun pc hpc => ?_⟩
  · obtain ⟨-, rfl⟩ := (get?_insert_cases hE).resolve_right nofun
    exact ⟨List.length_replicate, Nat.zero_le _, by simp [initialState]⟩
  · obtain rfl := List.mem_singleton.mp hpc
    exact ⟨_, get?_insert_self ..⟩

theorem initial_credit (ctx : ProveContext) (used pc : Nat) :
    credit ctx { initialProving ctx.snapshot with used } pc ≤
      ctx.snapshot.localCount.toNat + 1 := by
  unfold credit
  simp only [initialProving, get?_insert]
  by_cases hpc : 0 = pc
  · subst hpc
    have hnone : unsettled (initialState ctx.snapshot).locals = 0 := by
      refine List.countP_eq_zero.mpr fun kind hkind => ?_
      rw [(List.mem_replicate.mp hkind).2]
      decide
    rw [if_pos rfl]
    dsimp only
    rw [hnone, List.count_singleton_self]
    omega
  · rw [if_neg hpc]
    exact Nat.le_refl _

/-- The worklist of a function without handlers takes a block at most once more
than there are locals, and its work is bounded accordingly. -/
theorem proveEntries_affords (hgraph : PlainGraph ctx) {fuel : Nat} {r : Proving}
    (h : proveEntries fuel ctx = .ok r) :
    ∃ p, charge ctx 0 ctx.snapshot.localCount.toNat (initialProving ctx.snapshot) = .ok p ∧
      Outcome.iterate (proveStep ctx) fuel p = .ok r ∧
      (∀ pc, (proveTurns ctx fuel p).count pc ≤ ctx.snapshot.localCount.toNat + 1) ∧
      r.used ≤ ctx.snapshot.localCount.toNat +
        ctx.instructions.length * (ctx.snapshot.localCount.toNat + 1) * (1 + 6 * ctx.cells) := by
  obtain ⟨p, hcharge, hrun⟩ := bind_eq_ok.mp h
  obtain ⟨heq, hused⟩ := charge_used hcharge
  have hplain : PlainProving ctx p := heq ▸ initial_plain ctx p.used
  have hcredit : ∀ pc, credit ctx p pc ≤ ctx.snapshot.localCount.toNat + 1 :=
    fun pc => heq ▸ initial_credit ctx p.used pc
  obtain ⟨hcounts, hwork⟩ := run_affords hgraph hplain hrun
  have hturns : ∀ pc, (proveTurns ctx fuel p).count pc ≤ ctx.snapshot.localCount.toNat + 1 :=
    fun pc => (hcounts pc).trans (hcredit pc)
  refine ⟨p, hcharge, hrun, hturns, ?_⟩
  have hsum := sum_turns_le hgraph.ok hturns (1 + 6 * ctx.cells)
  have hzero : (initialProving ctx.snapshot).used = 0 := rfl
  omega

end Turns

/-! ## Verification under other limits -/

section Within

variable {table : OpcodeTable} {fuel : Nat} {snapshot : CompileSnapshot}
  {limits limits' : VerifyLimits} {f : VerifiedFunction}

theorem prove_within {cfg : ControlFlowGraph} {work' : Nat}
    (h : prove fuel snapshot is cfg work = .ok proof)
    (hwork : ∀ p, proveEntries fuel (proveContext snapshot is cfg work) = .ok p →
      p.spent ≤ work') : prove fuel snapshot is cfg work' = .ok proof := by
  unfold prove at h ⊢
  by_cases hempty : is.isEmpty = true
  · rw [if_pos hempty] at h ⊢
    exact h
  · rw [if_neg hempty] at h ⊢
    obtain ⟨p, hp, h⟩ := bind_eq_ok.mp h
    have hlimited := proveEntries_limited (proveContext snapshot is cfg 0) fuel work p hp
    exact bind_eq_ok.mpr ⟨p, hlimited.2.2 work' (hwork p hp), h⟩

theorem buildCfg_room {byteLen n n' : Nat} {cfg : ControlFlowGraph} (hle : n ≤ n')
    (h : buildCfg fuel is byteLen n = .ok cfg) : buildCfg fuel is byteLen n' = .ok cfg := by
  unfold buildCfg at h ⊢
  split at h
  · cases h
  case isFalse hne =>
    obtain ⟨found, hfound, h⟩ := bind_eq_ok.mp h
    split at h
    · cases h
    case isFalse hroom =>
      refine (if_neg hne).trans (bind_eq_ok.mpr ⟨found, hfound, (if_neg ?_).trans h⟩)
      omega

/-- What was verified is verified under every limits that cover it. -/
theorem verify_within (h : verify table fuel snapshot limits = .ok f)
    (hsnapshot : snapshotBytes snapshot ≤ limits'.maxSnapshotBytes)
    (hmetadata : metadataBytes snapshot ≤ limits'.maxMetadataBytes)
    (hinstructions : f.instructions.length ≤ limits'.maxInstructions)
    (hblocks : limits.maxBasicBlocks ≤ limits'.maxBasicBlocks)
    (hwork : ∀ p, proveEntries fuel
      (proveContext snapshot f.instructions f.cfg limits.maxWorkUnits) = .ok p →
        p.spent ≤ limits'.maxWorkUnits) :
    verify table fuel snapshot limits' = .ok f := by
  simp only [verify, bind_eq_ok] at h ⊢
  obtain ⟨_, hcheck, is, his, _, hindices, cfg, hcfg, proof, hproof, _, hreach, _, hexit, _, hmeta,
    points, hpoints, hf⟩ := h
  have hcheck' : checkSnapshot snapshot limits' = .ok () := by
    unfold checkSnapshot at hcheck ⊢
    rw [ite_reject_eq_ok] at hcheck ⊢
    refine ⟨hcheck.1, ?_⟩
    rw [if_neg (Nat.not_lt.mpr hsnapshot), if_neg (Nat.not_lt.mpr hmetadata)]
  cases hf
  exact ⟨(), hcheck', is, decodeInstructions_iff.mpr ⟨hinstructions, (decodeInstructions_iff.mp his).2⟩, (), hindices, cfg,
    buildCfg_room hblocks hcfg, proof, prove_within hproof hwork, (), hreach, (), hexit, (), hmeta,
    points, hpoints, rfl⟩

/-- What the limits of a verification were compared with. -/
theorem verify_sizes (h : verify table fuel snapshot limits = .ok f) :
    snapshotBytes snapshot ≤ limits.maxSnapshotBytes ∧
      metadataBytes snapshot ≤ limits.maxMetadataBytes ∧
      f.instructions.length ≤ limits.maxInstructions := by
  simp only [verify, bind_eq_ok] at h
  obtain ⟨_, hcheck, is, his, _, -, cfg, -, proof, -, _, -, _, -, _, -, points, -, hf⟩ := h
  cases hf
  unfold checkSnapshot at hcheck
  rw [ite_reject_eq_ok, ite_reject_eq_ok, ite_reject_eq_ok] at hcheck
  exact ⟨Nat.not_lt.mp hcheck.2.1, Nat.not_lt.mp hcheck.2.2.1, (decodeInstructions_iff.mp his).1⟩

/-- Of each limit the higher one. -/
def VerifyLimits.sup (limits limits' : VerifyLimits) : VerifyLimits where
  maxSnapshotBytes := max limits.maxSnapshotBytes limits'.maxSnapshotBytes
  maxInstructions := max limits.maxInstructions limits'.maxInstructions
  maxBasicBlocks := max limits.maxBasicBlocks limits'.maxBasicBlocks
  maxMetadataBytes := max limits.maxMetadataBytes limits'.maxMetadataBytes
  maxWorkUnits := max limits.maxWorkUnits limits'.maxWorkUnits

theorem verify_sup (limits' : VerifyLimits) (h : verify table fuel snapshot limits = .ok f) :
    verify table fuel snapshot (limits.sup limits') = .ok f := by
  obtain ⟨hsnapshot, hmetadata, hinstructions⟩ := verify_sizes h
  refine verify_within h (hsnapshot.trans (le_max_left ..)) (hmetadata.trans (le_max_left ..))
    (hinstructions.trans (le_max_left ..)) (le_max_left ..) fun p hp => ?_
  have hlimited := proveEntries_limited (proveContext snapshot f.instructions f.cfg 0) fuel _ p hp
  rw [Nat.zero_max] at hlimited
  exact hlimited.2.1.trans (le_max_left ..)

/-- The limits decide whether a function is verified, but not as what: higher
limits verify it too, and no limits give another result. -/
theorem limits_only_refuse (table : OpcodeTable) (fuel : Nat) (snapshot : CompileSnapshot)
    (limits limits' : VerifyLimits) (f : VerifiedFunction)
    (h : verify table fuel snapshot limits = .ok f) :
    verify table fuel snapshot (limits.sup limits') = .ok f ∧
    ∀ f', verify table fuel snapshot limits' = .ok f' → f' = f := by
  refine ⟨verify_sup limits' h, fun f' h' => ?_⟩
  have hsup : limits'.sup limits = limits.sup limits' := by
    simp only [VerifyLimits.sup, max_comm]
  have hboth := verify_sup limits h'
  rw [hsup, verify_sup limits' h] at hboth
  exact (Except.ok.inj hboth).symm

/-- With more work, and with room for its six instructions only, the function is
the same. -/
theorem joinFunction_higher_limits :
    let limits := { VerifyLimits.default with maxInstructions := 6, maxWorkUnits := 20000000 }
    verify sampleTable 10 (sampleSnapshot joinBytecode 0 1 1) (VerifyLimits.default.sup limits) =
        .ok joinFunction ∧
      ∃ f, verify sampleTable 10 (sampleSnapshot joinBytecode 0 1 1) limits = .ok f ∧
        f = joinFunction := by
  intro limits
  obtain ⟨hsup, hsame⟩ := limits_only_refuse sampleTable 10 _ VerifyLimits.default limits
    joinFunction verify_joinBytecode
  have hok : (verify sampleTable 10 (sampleSnapshot joinBytecode 0 1 1) limits).isOk = true := by
    decide
  exact ⟨hsup, _, eq_ok_value hok, hsame _ (eq_ok_value hok)⟩

theorem Verification.plainGraph (h : Verification table fuel snapshot limits f proof)
    (hplain : Plain f.instructions) :
    PlainGraph (proveContext snapshot f.instructions f.cfg work) where
  ok := h.cfg_ok
  names := hplain
  successors := buildCfg_successors (decodeInstructions_covers h.decoded) h.cfg_built
    fun i hi => (hplain i hi).2.2

end Within

end QuickJit
