import QuickJit.Bytecode.Paths

/-
  The two views of a catch offset: the slot kind and the list of catches.

  `Exact` says that the catches of a state name exactly its `CatchOffset`
  slots, in order. One instruction keeps a state exact unless it pushes a copy
  of a catch offset (`CopiesCatch`): a stack permutation, a `set_*` or a load of
  a local that holds one pushes the kind without an entry in the list, and the
  entry of the slot it came from may be trimmed. `catches_exact_iff` carries this
  over every state that `prove` computes, and
  `verified_catches_inexact` is a function that the verifier accepts with a
  state that is not exact.
-/

namespace QuickJit

open Outcome

/-- The positions of the catch offsets of a stack whose bottom is at `base`. -/
def catchSlotsFrom (base : Nat) : List SlotKind → List Nat
  | [] => []
  | kind :: rest =>
    if kind = .catchOffset then base :: catchSlotsFrom (base + 1) rest
    else catchSlotsFrom (base + 1) rest

/-- The operand-stack indices whose kind is `CatchOffset`, in increasing order. -/
def catchSlots (stack : List SlotKind) : List Nat := catchSlotsFrom 0 stack

/-- The catches name exactly the catch-offset slots. -/
def Exact (s : AbstractState) : Prop := s.catches.map Prod.fst = catchSlots s.stack

instance (s : AbstractState) : Decidable (Exact s) := inferInstanceAs (Decidable (_ = _))

/-! ## Catch-offset slots -/

theorem catchSlotsFrom_append : ∀ (base : Nat) (l m : List SlotKind),
    catchSlotsFrom base (l ++ m) = catchSlotsFrom base l ++ catchSlotsFrom (base + l.length) m
  | base, [], m => by simp [catchSlotsFrom]
  | base, kind :: l, m => by
    have hbase : base + (kind :: l).length = base + 1 + l.length := by
      rw [List.length_cons]
      omega
    rw [List.cons_append, catchSlotsFrom, catchSlotsFrom, hbase, catchSlotsFrom_append]
    split <;> rfl

theorem catchSlots_append (l m : List SlotKind) :
    catchSlots (l ++ m) = catchSlots l ++ catchSlotsFrom l.length m := by
  rw [catchSlots, catchSlotsFrom_append, Nat.zero_add]
  rfl

theorem mem_catchSlotsFrom : ∀ {base x : Nat} {l : List SlotKind},
    x ∈ catchSlotsFrom base l ↔ base ≤ x ∧ l[x - base]? = some .catchOffset
  | base, x, [] => by simp [catchSlotsFrom]
  | base, x, kind :: l => by
    have ih := @mem_catchSlotsFrom (base + 1) x l
    rcases Nat.lt_trichotomy x base with hlt | rfl | hgt
    · have hle : ¬base ≤ x := by omega
      have hle' : ¬base + 1 ≤ x := by omega
      simp only [hle', false_and, iff_false] at ih
      simp only [catchSlotsFrom, hle, false_and, iff_false]
      split
      · simp only [List.mem_cons, not_or]
        exact ⟨by omega, ih⟩
      · exact ih
    · have hle' : ¬x + 1 ≤ x := by omega
      simp only [hle', false_and, iff_false] at ih
      simp only [catchSlotsFrom, le_refl, true_and, Nat.sub_self, List.getElem?_cons_zero,
        Option.some.injEq]
      split <;> simp [*]
    · obtain ⟨d, rfl⟩ : ∃ d, x = base + 1 + d := ⟨x - (base + 1), by omega⟩
      have h1 : base + 1 + d - base = d + 1 := by omega
      have h2 : base + 1 + d - (base + 1) = d := by omega
      rw [h2] at ih
      rw [h1, List.getElem?_cons_succ, catchSlotsFrom]
      have hne : base + 1 + d ≠ base := by omega
      split
      · simp only [List.mem_cons, hne, false_or, ih]
        exact and_congr_left fun _ => by omega
      · rw [ih]
        exact and_congr_left fun _ => by omega

theorem mem_catchSlots {x : Nat} {l : List SlotKind} :
    x ∈ catchSlots l ↔ l[x]? = some .catchOffset := by
  rw [catchSlots, mem_catchSlotsFrom]
  simp

theorem catchSlotsFrom_eq_nil {base : Nat} {l : List SlotKind} :
    catchSlotsFrom base l = [] ↔ .catchOffset ∉ l := by
  rw [List.eq_nil_iff_forall_not_mem]
  constructor
  · intro h hmem
    obtain ⟨k, hk⟩ := List.mem_iff_getElem?.mp hmem
    exact h (base + k) (mem_catchSlotsFrom.mpr ⟨by omega, by simpa using hk⟩)
  · intro h x hx
    exact h (List.mem_of_getElem? (mem_catchSlotsFrom.mp hx).2)

theorem catchSlotsFrom_sorted : ∀ (base : Nat) (l : List SlotKind),
    (catchSlotsFrom base l).Pairwise (· < ·)
  | _, [] => List.Pairwise.nil
  | base, kind :: l => by
    unfold catchSlotsFrom
    split
    · refine List.pairwise_cons.mpr ⟨fun x hx => ?_, catchSlotsFrom_sorted _ l⟩
      exact (mem_catchSlotsFrom.mp hx).1
    · exact catchSlotsFrom_sorted _ l

theorem catchSlots_lt {x : Nat} {l : List SlotKind} (h : x ∈ catchSlots l) : x < l.length :=
  (List.getElem?_eq_some_iff.mp (mem_catchSlots.mp h)).1

/-- The catch offsets of the bottom of a stack. -/
theorem catchSlots_take {l : List SlotKind} {n : Nat} (hn : n ≤ l.length) :
    (catchSlots l).filter (fun x => decide (x < n)) = catchSlots (l.take n) := by
  have hsplit : catchSlots l = catchSlots (l.take n) ++ catchSlotsFrom n (l.drop n) := by
    conv_lhs => rw [← List.take_append_drop n l]
    rw [catchSlots_append, List.length_take, Nat.min_eq_left hn]
  rw [hsplit, List.filter_append]
  have hlow : ∀ x ∈ catchSlots (l.take n), decide (x < n) = true := fun x hx => by
    have := catchSlots_lt hx
    rw [List.length_take] at this
    simp; omega
  have hhigh : ∀ x ∈ catchSlotsFrom n (l.drop n), ¬decide (x < n) = true := fun x hx => by
    have := (mem_catchSlotsFrom.mp hx).1
    simp; omega
  rw [List.filter_eq_self.mpr hlow, List.filter_eq_nil_iff.mpr hhigh, List.append_nil]

theorem Exact.wellNested {s : AbstractState} (h : Exact s) : s.WellNested where
  sorted := by
    have := catchSlotsFrom_sorted 0 s.stack
    rw [← catchSlots, ← h] at this
    exact List.pairwise_map.mp this
  below c hc := catchSlots_lt (h ▸ List.mem_map_of_mem hc)

/-! ## One instruction -/

/-- A load pushes a local that holds a catch offset. -/
def LoadsCatch (i : Instruction) (s : AbstractState) : Prop :=
  if i.name = .getLoc0Loc1 then
    s.locals[0]? = some .catchOffset ∨ s.locals[1]? = some .catchOffset
  else ((localIndex i).bind fun k => s.locals[k]?) = some .catchOffset

/-- A stack permutation pushes a catch offset. -/
def PermutesCatch (i : Instruction) (s : AbstractState) : Prop :=
  ∃ p ∈ permutation i.name, (poppedSlots i s).length = p.1 ∧
    ∃ k ∈ p.2, (poppedSlots i s)[k]? = some .catchOffset

/-- A `set_*` keeps a catch offset on the stack. -/
def SetsCatch (i : Instruction) (s : AbstractState) : Prop :=
  i.opcode.nPush = 1 ∧ (i.name.isSetLoc || i.name.isSetArg || i.name.isSetVarRef) = true ∧
    poppedTop i s = .catchOffset

/-- The instruction pushes a copy of a catch offset. -/
def CopiesCatch (i : Instruction) (s : AbstractState) : Prop :=
  i.name.isGetLoc = true ∧ LoadsCatch i s ∨ PermutesCatch i s ∨ SetsCatch i s

instance (i : Instruction) (s : AbstractState) : Decidable (LoadsCatch i s) :=
  inferInstanceAs (Decidable (if i.name = .getLoc0Loc1 then _ else _))

instance (i : Instruction) (s : AbstractState) : Decidable (PermutesCatch i s) :=
  inferInstanceAs (Decidable (∃ p ∈ permutation i.name, _))

instance (i : Instruction) (s : AbstractState) : Decidable (SetsCatch i s) :=
  inferInstanceAs (Decidable (_ ∧ _ ∧ _))

instance (i : Instruction) (s : AbstractState) : Decidable (CopiesCatch i s) :=
  inferInstanceAs (Decidable (_ ∨ _ ∨ _))

section Names

variable {i : Instruction} {s : AbstractState}

theorem permutation_not_set {name : OpName} {p : Nat × List Nat} (h : permutation name = some p) :
    (name.isSetLoc || name.isSetArg || name.isSetVarRef) = false ∧ name.isGetLoc = false := by
  unfold permutation at h
  split at h
  all_goals first | exact ⟨rfl, rfl⟩ | cases h

/-- An instruction outside the three families copies nothing. -/
theorem not_copiesCatch_of_name (hperm : permutation i.name = none)
    (hset : (i.name.isSetLoc || i.name.isSetArg || i.name.isSetVarRef) = false)
    (hload : i.name.isGetLoc = false) : ¬CopiesCatch i s := by
  rintro (⟨h, -⟩ | ⟨p, h, -⟩ | ⟨-, h, -⟩)
  · rw [hload] at h
    cases h
  · rw [hperm] at h
    cases h
  · rw [hset] at h
    cases h

theorem transferLoad_copies {pushed : List SlotKind} (h : transferLoad i s.locals = .ok pushed) :
    .catchOffset ∈ pushed ↔ LoadsCatch i s := by
  unfold transferLoad at h
  unfold LoadsCatch
  split at h
  case isTrue hname =>
    rw [if_pos hname]
    split at h
    case h_1 a b ha hb =>
      cases h
      simp [ha, hb, eq_comm]
    · cases h
  case isFalse hname =>
    rw [if_neg hname]
    split at h
    case h_1 a ha =>
      cases h
      rw [ha]
      simp [eq_comm]
    · cases h

theorem copiedStackValues_copies {values : List SlotKind}
    (h : copiedStackValues i.name (poppedSlots i s) = some values) :
    .catchOffset ∈ values ↔ PermutesCatch i s := by
  obtain ⟨⟨arity, order⟩, hperm, h⟩ := Option.bind_eq_some_iff.mp h
  dsimp only at h
  split at h
  case isFalse => cases h
  case isTrue hlen =>
    cases h
    simp only [PermutesCatch, hperm, Option.mem_def, Option.some.injEq, exists_eq_left', hlen,
      true_and, List.mem_filterMap]

theorem copiedStackValues_none (h : copiedStackValues i.name (poppedSlots i s) = none) :
    ¬PermutesCatch i s := by
  rintro ⟨p, hperm, hlen, -⟩
  rw [Option.mem_def] at hperm
  simp [copiedStackValues, hperm, hlen] at h

end Names

section Step

variable {i : Instruction} {s s' : AbstractState} {snapshot : CompileSnapshot}

theorem pushedKind_ne_catchOffset (h : i.name ≠ .catchOp) :
    pushedKind snapshot i ≠ .catchOffset := by
  unfold pushedKind
  rw [if_neg h]
  split
  · simp
  · split
    · dsimp only
      split
      · split
        · simp
        · split <;> simp
      · simp
    · simp

/-- What is pushed holds a catch offset without an entry in the catches exactly
when the instruction copies one. -/
theorem transferPush_copies {pushed : List SlotKind} {live : Option (Option Nat)} (kept : Nat)
    (hload : i.name.isGetLoc = false)
    (h : transferPush snapshot i (poppedSlots i s) (poppedTop i s) = .ok (pushed, live)) :
    (liveEntry (kept + pushed.length) live).map Prod.fst = catchSlotsFrom kept pushed ↔
      ¬CopiesCatch i s := by
  have hnone : ∀ {kinds : List SlotKind}, (.catchOffset ∈ kinds ↔ CopiesCatch i s) →
      ((liveEntry (kept + kinds.length) none).map Prod.fst = catchSlotsFrom kept kinds ↔
        ¬CopiesCatch i s) := by
    intro kinds hkinds
    rw [liveEntry, List.map_nil, eq_comm, catchSlotsFrom_eq_nil, hkinds]
  have hother : ∀ {kinds : List SlotKind}, .catchOffset ∉ kinds → ¬CopiesCatch i s →
      ((liveEntry (kept + kinds.length) none).map Prod.fst = catchSlotsFrom kept kinds ↔
        ¬CopiesCatch i s) := fun hkinds hcopy => hnone (iff_of_false hkinds hcopy)
  unfold transferPush at h
  split at h
  case isTrue hname =>
    cases h
    refine iff_of_true rfl ?_
    rcases hname with hname | hname <;>
      exact not_copiesCatch_of_name (hname ▸ rfl) (hname ▸ rfl) hload
  case isFalse =>
  split at h
  case isTrue hname =>
    obtain ⟨target, -, h⟩ := bind_eq_ok.mp h
    cases h
    exact iff_of_true rfl (not_copiesCatch_of_name (hname ▸ rfl) (hname ▸ rfl) hload)
  case isFalse hcatch =>
  split at h
  case isTrue hname =>
    cases h
    exact hother (by simp) (not_copiesCatch_of_name (hname ▸ rfl) (hname ▸ rfl) hload)
  case isFalse =>
  split at h
  case isTrue hname =>
    cases h
    exact hother (by simp) (not_copiesCatch_of_name (hname ▸ rfl) (hname ▸ rfl) hload)
  case isFalse =>
  split at h
  case h_1 values hvalues =>
    cases h
    refine hnone ((copiedStackValues_copies hvalues).trans ?_)
    obtain ⟨p, hperm, -⟩ := Option.bind_eq_some_iff.mp hvalues
    simp [CopiesCatch, hload, SetsCatch, (permutation_not_set hperm).1]
  case h_2 hvalues =>
  have hperm := copiedStackValues_none hvalues
  split at h
  case isTrue hname =>
    cases h
    refine hother ?_ (not_copiesCatch_of_name (hname ▸ rfl) (hname ▸ rfl) hload)
    split <;> simp
  case isFalse =>
  split at h
  case isTrue hset =>
    cases h
    refine hnone ?_
    simp only [CopiesCatch, hload, Bool.false_eq_true, false_and, hperm, false_or, SetsCatch,
      hset.1, hset.2, true_and, List.mem_singleton]
    exact eq_comm
  case isFalse hset =>
    cases h
    refine hother ?_ ?_
    · intro hmem
      exact pushedKind_ne_catchOffset hcatch (List.eq_of_mem_replicate hmem).symm
    · rintro (⟨h, -⟩ | h | ⟨hpush, h, -⟩)
      · rw [hload] at h
        cases h
      · exact hperm h
      · exact hset ⟨hpush, h⟩

/-- The value above the innermost catch offset is not one. -/
theorem Exact.nipCatch_value (hs : Exact s) {value : SlotKind} {index : Nat} {handler : Option Nat}
    (hvalue : s.stack.getLast? = some value) (hcatch : s.catches.getLast? = some (index, handler))
    (hslot : s.stack.dropLast[index]? = some .catchOffset) : value ≠ .catchOffset := by
  rintro rfl
  have hlt := (List.getElem?_eq_some_iff.mp hslot).1
  rw [List.length_dropLast] at hlt
  have htop : s.stack.length - 1 ∈ s.catches.map Prod.fst := by
    rw [hs, mem_catchSlots, ← List.getLast?_eq_getElem?]
    exact hvalue
  obtain ⟨c, hc, heq⟩ := List.mem_map.mp htop
  obtain ⟨init, hinit⟩ := List.getLast?_eq_some_iff.mp hcatch
  have hsorted := hs.wellNested.sorted
  rw [hinit] at hsorted hc
  rcases List.mem_append.mp hc with hc | hc
  · have := (List.pairwise_append.mp hsorted).2.2 c hc (index, handler) (by simp)
    dsimp only at this
    omega
  · rw [List.mem_singleton] at hc
    subst hc
    dsimp only at heq
    omega

theorem exact_append_iff {kept : Nat} {pushed : List SlotKind} {entry : List (Nat × Option Nat)}
    (hs : Exact s) (hkept : kept ≤ s.stack.length)
    (hstack : s'.stack = s.stack.take kept ++ pushed)
    (hcatches : s'.catches = (s.catches.filter fun c => decide (c.1 < kept)) ++ entry) :
    Exact s' ↔ entry.map Prod.fst = catchSlotsFrom kept pushed := by
  have hlow : (s.catches.filter fun c => decide (c.1 < kept)).map Prod.fst =
      catchSlots (s.stack.take kept) := by
    rw [← catchSlots_take hkept, ← hs, List.filter_map]
    rfl
  rw [Exact, hstack, hcatches, catchSlots_append, List.map_append, hlow, List.length_take,
    Nat.min_eq_left hkept, List.append_cancel_left_eq]

/-- One instruction keeps a state exact unless it copies a catch offset. -/
theorem exact_transfer_iff (hs : Exact s) (h : transfer snapshot i s = .ok s') :
    Exact s' ↔ ¬CopiesCatch i s := by
  have hlen : (keptSlots i s).length = s.stack.length - effectivePop i := by
    simp only [keptSlots, List.length_take]
    omega
  have hkept : keptSlots i s = s.stack.take (keptSlots i s).length := by
    rw [hlen]
    rfl
  have hle : (keptSlots i s).length ≤ s.stack.length := by omega
  have htrim := @trimCatches_eq_filter s.catches (keptSlots i s).length hs.wellNested.sorted
  cases (transfer_eq_ok.mp h).2.2 with
  | nipCatch hname hnip =>
    obtain ⟨value, index, handler, hvalue, hcatch, hslot, rfl⟩ := hnip
    refine iff_of_true ?_
      (not_copiesCatch_of_name (hname ▸ rfl) (hname ▸ rfl) (hname ▸ rfl))
    have hindex := (List.getElem?_eq_some_iff.mp hslot).1
    rw [List.length_dropLast] at hindex
    rw [@exact_append_iff s _ index [value] [] hs (by omega)]
    · simp [catchSlotsFrom, hs.nipCatch_value hvalue hcatch hslot]
    · dsimp only
      rw [List.dropLast_eq_take, List.take_take, Nat.min_eq_left (by omega)]
    · rw [List.append_nil]
      exact filter_below_dropLast hs.wellNested.sorted hcatch
  | next hname =>
    refine iff_of_true ?_ ?_
    · rw [Exact, catchSlots_append, ← (show _ = catchSlots s.stack from hs)]
      simp [catchSlotsFrom]
    · rcases hname with hname | hname <;>
        exact not_copiesCatch_of_name (hname ▸ rfl) (hname ▸ rfl) (hname ▸ rfl)
  | @load pushed hname hload =>
    rw [@exact_append_iff s _ (keptSlots i s).length pushed [] hs hle
      (by rw [← hkept]; rfl) (by rw [← htrim, List.append_nil]; rfl)]
    rw [List.map_nil, eq_comm, catchSlotsFrom_eq_nil, transferLoad_copies hload]
    have hperm : ¬PermutesCatch i s := by
      rintro ⟨_, hp, _⟩
      rw [(permutation_not_set hp).2] at hname
      cases hname
    have hset : ¬SetsCatch i s := by
      rintro ⟨_, hset, _⟩
      revert hname hset
      cases i.name <;> decide
    simp [CopiesCatch, hname, hperm, hset]
  | @push locals pushed live hnip hnext hload hlocals hpush =>
    rw [@exact_append_iff s _ (keptSlots i s).length pushed
      (liveEntry ((keptSlots i s).length + pushed.length) live) hs hle (by rw [← hkept]; rfl)
      (by rw [← htrim]; cases live <;> simp [pushState, liveEntry])]
    exact transferPush_copies _ hload hpush

end Step

/-! ## Every state of the worklist -/

section Worklist

variable {ctx : ProveContext} {p p' : Proving} {Good : AbstractState → Prop}
  {Allowed : TransferStep → Prop}

/-- While every step is allowed, every state is good. -/
def StatesGood (Good : AbstractState → Prop) (Allowed : TransferStep → Prop) (p : Proving) : Prop :=
  (∀ step ∈ p.steps, Allowed step) →
    (∀ pc E, p.entries.get? pc = some E → Good E) ∧
      ∀ step ∈ p.steps, Good step.before ∧ Good step.after

/-- What a block needs to keep states good. -/
structure KeepsGood (ctx : ProveContext) (Good : AbstractState → Prop)
    (Allowed : TransferStep → Prop) : Prop where
  start : Good (initialState ctx.snapshot)
  widens : ∀ E E', Good E → Widens E E' → Good E'
  edge : ∀ s E, Good s → EdgeEntry s E → Good E
  step : ∀ step, Allowed step → Good step.before →
    transfer ctx.snapshot step.instruction step.before = .ok step.after → Good step.after

/-- From a good entry every state inside a closed block is good. -/
theorem KeepsGood.stateAt (h : KeepsGood ctx Good Allowed) {b : BasicBlock} {E : AbstractState}
    (hclosed : Closed ctx p b E) (hall : ∀ step ∈ p.steps, Allowed step) (hE : Good E) :
    ∀ {n : Nat} {A : AbstractState}, n ≤ (b.instructions ctx.instructions).length →
      stateAt ctx.snapshot (b.instructions ctx.instructions) n E = .ok A → Good A
  | 0, A, _, hA => Except.ok.inj hA ▸ hE
  | n + 1, A, hn, hA => by
    have hi := List.getElem?_eq_getElem (show n < (b.instructions ctx.instructions).length by omega)
    obtain ⟨B, hB, hBA⟩ := (stateAt_succ hi).mp hA
    obtain ⟨C, C', hC, hC', hstep, -⟩ := hclosed n _ hi
    rw [hB] at hC
    cases hC
    rw [hBA] at hC'
    cases hC'
    exact h.step _ (hall _ hstep) (h.stateAt hclosed hall hE (by omega) hB) hBA

theorem KeepsGood.block (h : KeepsGood ctx Good Allowed) {b : BasicBlock} {E : AbstractState}
    {pc : Nat} (hE : p.entries.get? pc = some E) (hrun : BlockRun ctx b E p p')
    (hp : StatesGood Good Allowed p) : StatesGood Good Allowed p' := by
  intro hall
  obtain ⟨hentries, hsteps⟩ := hp fun step hstep => hall step (hrun.steps step hstep)
  have hat := fun {n A} => @KeepsGood.stateAt ctx p' Good Allowed h b E hrun.closed hall
    (hentries pc E hE) n A
  refine ⟨fun pc' E' hE' => ?_, fun step hstep => ?_⟩
  · obtain ⟨s, hs, hgrows⟩ := hrun.edges
    rcases hgrows.source hE' with ⟨E₀, hE₀, hw⟩ | hentry
    · exact h.widens E₀ E' (hentries pc' E₀ hE₀) hw
    · refine h.edge s E' (hat le_rfl ?_) hentry
      rwa [QuickJit.stateAt, List.take_length]
  · rcases hrun.source step hstep with hold | ⟨htransfer, n, hn, hstate⟩
    · exact hsteps step hold
    · have hlt : n < (b.instructions ctx.instructions).length :=
        (List.getElem?_eq_some_iff.mp hn).1
      have hbefore := hat (Nat.le_of_lt hlt) hstate
      exact ⟨hbefore, h.step step (hall step hstep) hbefore htransfer⟩

/-- A property that blocks keep holds of every state the worklist computes. -/
theorem proveEntries_good {fuel : Nat} (hcfg : ctx.cfg.Ok ctx.instructions)
    (hsorted : ctx.instructions.Pairwise (fun a b => a.nextPc ≤ b.pc ∧ a.pc < b.pc))
    (hkeeps : KeepsGood ctx Good Allowed) (h : proveEntries fuel ctx = .ok p) :
    StatesGood Good Allowed p := by
  obtain ⟨p₀, hcharge, hrun⟩ := bind_eq_ok.mp h
  obtain ⟨used, rfl⟩ := charge_eq_ok hcharge
  refine (iterate_inv (P := fun p => Invariant ctx p ∧ StatesGood Good Allowed p) ?_ hrun
    ⟨initial_invariant, fun _ => ⟨fun pc E hE => ?_, fun _ h => (List.not_mem_nil h).elim⟩⟩).1.2
  · intro p₁ p₂ ⟨hinv, hgood⟩ hstep
    refine ⟨proveStep_invariant hcfg hsorted hinv hstep, ?_⟩
    unfold proveStep at hstep
    split at hstep
    · cases hstep
    case h_2 blockPc queue hqueue =>
    obtain ⟨p₃, hturn, hstep⟩ := bind_eq_ok.mp hstep
    cases hstep
    obtain ⟨b, E, -, hE, hblock⟩ := proveBlock_run hcfg hsorted (p := { p₁ with queue })
      ⟨hinv.tracked.located, hinv.tracked.handlers, hinv.tracked.handled, hinv.tracked.visited⟩
      hinv.ok hturn
    exact hkeeps.block hE hblock hgood
  · obtain ⟨rfl, rfl⟩ := (OrdMap.get?_insert_cases hE).resolve_right nofun
    exact hkeeps.start

end Worklist

/-- A caught catch offset leaves the rest of the catches exact. -/
theorem Exact.edgeEntry {s E : AbstractState} (hs : Exact s) (hE : EdgeEntry s E) : Exact E := by
  rcases hE.frame with ⟨hstack, hcatches⟩ | ⟨htop, -, hstack, hcatches⟩
  · rw [Exact, hstack, hcatches]
    exact hs
  · obtain ⟨init, hinit⟩ := List.getLast?_eq_some_iff.mp htop
    have hslots : s.catches.map Prod.fst = catchSlots init ++ [init.length] := by
      rw [hs, hinit, catchSlots_append]
      rfl
    rw [Exact, hstack, hcatches, hinit, List.dropLast_concat, catchSlots_append,
      List.map_dropLast, hslots, List.dropLast_concat]
    exact (List.append_nil _).symm

/-- Exact states of a height the function declares. -/
def ExactWithin (snapshot : CompileSnapshot) (s : AbstractState) : Prop :=
  Exact s ∧ s.stack.length ≤ snapshot.stackSize.toNat

theorem exactWithin_keeps (ctx : ProveContext) : KeepsGood ctx (ExactWithin ctx.snapshot)
    (fun step => ¬CopiesCatch step.instruction step.before) where
  start := ⟨rfl, Nat.zero_le _⟩
  widens E E' hE hw := by
    rw [ExactWithin, Exact, hw.stack, hw.catches]
    exact hE
  edge s E hs hE := by
    refine ⟨hs.1.edgeEntry hE, ?_⟩
    rcases hE.frame with ⟨hstack, -⟩ | ⟨htop, -, hstack, -⟩
    · rw [hstack]
      exact hs.2
    · obtain ⟨init, hinit⟩ := List.getLast?_eq_some_iff.mp htop
      have hheight := hs.2
      rw [hinit, List.length_append] at hheight
      rw [hstack, hinit, List.dropLast_concat, List.length_append]
      exact hheight
  step step hallowed hs htransfer :=
    ⟨(exact_transfer_iff hs.1 htransfer).mpr hallowed, transfer_stack_le htransfer⟩

/-- In an exact state the innermost catch is the topmost catch offset. -/
theorem Exact.innermostCatch {s : AbstractState} (hs : Exact s) (hlen : s.stack.length < 65536) :
    s.innermostCatch.map ExceptionHandler.catchIndex = (catchSlots s.stack).getLast? := by
  rw [← (show _ = catchSlots s.stack from hs), List.getLast?_map, AbstractState.innermostCatch]
  cases hlast : s.catches.getLast? with
  | none => rfl
  | some c =>
    have hbelow := hs.wellNested.below c (List.mem_of_getLast? hlast)
    rw [Option.bind_some, if_pos (by omega)]
    rfl

/-! ## Verified functions -/

/-- The verifier tracks catch offsets exactly, in every state it computes, when
no instruction it runs pushes a copy of one; and only then. -/
theorem catches_exact_iff {table : OpcodeTable} {fuel : Nat} {snapshot : CompileSnapshot}
    {limits : VerifyLimits} {f : VerifiedFunction}
    (h : verify table fuel snapshot limits = .ok f) :
    ∃ proof, prove fuel snapshot f.instructions f.cfg limits.maxWorkUnits = .ok proof ∧
      (∀ i ∈ f.instructions, i.pc ∉ f.unreachable →
        ∃ step ∈ proof.steps, step.instruction.pc = i.pc) ∧
      ((∀ step ∈ proof.steps, Exact step.before ∧ Exact step.after ∧
          (f.exceptionHandler step.instruction.pc).map ExceptionHandler.catchIndex =
            (catchSlots step.before.stack).getLast?) ↔
        ∀ step ∈ proof.steps, ¬CopiesCatch step.instruction step.before) := by
  obtain ⟨proof, hver⟩ := verify_eq_ok h
  obtain ⟨p, hp, hsolved, hproof⟩ := hver.solved
  have hgood := proveEntries_good hsolved.cfg_ok hsolved.sorted (exactWithin_keeps _) hp
  have htracked := hsolved.invariant.tracked
  refine ⟨proof, hver.proved, fun i hi hreach => ?_, fun hexact step hstep => ?_,
    fun hcopies step hstep => ?_⟩
  · rw [hver.unreachable_eq, OrdSet.mem_ofList, List.mem_filter] at hreach
    have hvisited : i.pc ∈ proof.visited := by
      by_contra hnot
      exact hreach ⟨List.mem_map_of_mem hi, by simpa using hnot⟩
    rw [hproof] at hvisited ⊢
    exact htracked.visited i.pc hvisited
  · obtain ⟨hbefore, hafter, -⟩ := hexact step hstep
    rw [hproof] at hstep
    obtain ⟨_, _, _, _, -, -, -, -, -, htransfer⟩ := htracked.located step hstep
    exact (exact_transfer_iff hbefore htransfer).mp hafter
  · rw [hproof] at hcopies hstep
    obtain ⟨hbefore, hafter⟩ := (hgood hcopies).2 step hstep
    refine ⟨hbefore.1, hafter.1, ?_⟩
    rw [VerifiedFunction.exceptionHandler, hver.handlers_eq, hproof, htracked.handlers step hstep]
    refine hbefore.1.innermostCatch (Nat.lt_of_le_of_lt hbefore.2 ?_)
    exact f.snapshot.stackSize.toNat_lt

/-- `try {} catch {}` without a copy of its catch offset:
`catch 7; drop; return_undef; 7: drop; return_undef`. -/
def tryBytecode : List UInt8 := [107, 6, 0, 0, 0, 14, 41, 14, 41]

theorem tryBytecode_verified : (verify sampleTable 10 (sampleSnapshot tryBytecode 0 0 4)
    VerifyLimits.default).toOption.isSome = true := by
  decide

def tryFunction : VerifiedFunction :=
  (verify sampleTable 10 (sampleSnapshot tryBytecode 0 0 4) VerifyLimits.default).toOption.get
    tryBytecode_verified

/-- The verifier's catch offsets of `tryFunction` are exact. -/
theorem tryFunction_catches_exact : ∃ proof,
    prove 10 (sampleSnapshot tryBytecode 0 0 4) tryFunction.instructions tryFunction.cfg
        VerifyLimits.default.maxWorkUnits = .ok proof ∧
      ∀ step ∈ proof.steps, Exact step.before ∧ Exact step.after ∧
        (tryFunction.exceptionHandler step.instruction.pc).map ExceptionHandler.catchIndex =
          (catchSlots step.before.stack).getLast? := by
  have hverify : verify sampleTable 10 (sampleSnapshot tryBytecode 0 0 4) VerifyLimits.default =
    .ok tryFunction := rfl
  obtain ⟨proof, hproof, -, hiff⟩ := catches_exact_iff hverify
  have hcopies : ∀ step ∈ proof.steps, ¬CopiesCatch step.instruction step.before := by
    have hrun : ((prove 10 (sampleSnapshot tryBytecode 0 0 4) tryFunction.instructions
        tryFunction.cfg VerifyLimits.default.maxWorkUnits).toOption.all fun proof =>
          proof.steps.all fun step => !CopiesCatch step.instruction step.before) = true := by
      decide +kernel
    rw [hproof] at hrun
    simpa [Except.toOption] using hrun
  exact ⟨proof, hproof, hiff.mpr hcopies⟩

/-! ## A copied catch offset -/

/-- A catch offset that is copied and popped twice:
`catch 9; dup; drop; drop; return_undef; 9: drop; return_undef`. -/
def copiedCatchBytecode : List UInt8 := [107, 8, 0, 0, 0, 17, 14, 14, 41, 14, 41]

theorem copiedCatchBytecode_verified :
    (verify sampleTable 10 (sampleSnapshot copiedCatchBytecode 0 0 4)
      VerifyLimits.default).toOption.isSome = true := by
  decide

def copiedCatchFunction : VerifiedFunction :=
  (verify sampleTable 10 (sampleSnapshot copiedCatchBytecode 0 0 4)
    VerifyLimits.default).toOption.get copiedCatchBytecode_verified

theorem copiedCatchFunction_proved : ∃ proof,
    prove 10 (sampleSnapshot copiedCatchBytecode 0 0 4) copiedCatchFunction.instructions
        copiedCatchFunction.cfg VerifyLimits.default.maxWorkUnits = .ok proof ∧
      ⟨⟨6, ⟨14, .drop, 1, 1, 0, .none⟩, [14]⟩, ⟨[], [.catchOffset, .catchOffset], []⟩,
        ⟨[], [.catchOffset], []⟩⟩ ∈ proof.steps := by
  have hrun : ((prove 10 (sampleSnapshot copiedCatchBytecode 0 0 4)
      copiedCatchFunction.instructions copiedCatchFunction.cfg
      VerifyLimits.default.maxWorkUnits).toOption.any fun proof => proof.steps.contains
        ⟨⟨6, ⟨14, .drop, 1, 1, 0, .none⟩, [14]⟩, ⟨[], [.catchOffset, .catchOffset], []⟩,
          ⟨[], [.catchOffset], []⟩⟩) = true := by
    decide
  cases hproof : prove 10 (sampleSnapshot copiedCatchBytecode 0 0 4)
      copiedCatchFunction.instructions copiedCatchFunction.cfg
      VerifyLimits.default.maxWorkUnits with
  | error e =>
    rw [hproof] at hrun
    cases hrun
  | ok proof =>
    rw [hproof] at hrun
    exact ⟨proof, rfl, by simpa [Except.toOption] using hrun⟩

/-- The verifier accepts a function in which, before the `drop` at pc 6, two
catch offsets are on the stack while no catch is live and none is published. -/
theorem verified_catches_inexact : ∃ table fuel snapshot limits f proof step,
    verify table fuel snapshot limits = .ok f ∧
      prove fuel snapshot f.instructions f.cfg limits.maxWorkUnits = .ok proof ∧
      step ∈ proof.steps ∧ ¬Exact step.before ∧
      f.exceptionHandler step.instruction.pc = none ∧
      catchSlots step.before.stack = [0, 1] := by
  obtain ⟨proof, hproof, hstep⟩ := copiedCatchFunction_proved
  exact ⟨sampleTable, _, _, _, copiedCatchFunction, proof, _, rfl, hproof, hstep, by decide,
    by decide +kernel, by decide⟩

end QuickJit
