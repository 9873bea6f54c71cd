import QuickJit.Lib.Dataflow
import QuickJit.Bytecode.Paths
import QuickJit.Ir.Made

/-
  The proof that lexical checks can be dropped is exact.

  `prove_lexical_checks` keeps, for every block, which locals may be
  uninitialized when it is entered, and walks the graph until nothing changes.
  What it decides is a statement about paths (`LexicalFault`): some path from
  the entry reaches a checked access of a local that `set_loc_uninitialized`
  was the last to set, or reaches a `put_loc_check_init`.

  The walk is a `Dataflow` over bit sets (`lexicalFlow`). A bit stands for a
  path (`LexicalAt.flagged`), so a walk that fails has found a fault; once the
  walk has settled, the bits cover every path (`GraphPath.covered`), so a walk
  that ends has not missed one. A block can be queued once when it is found and
  once for every bit that is added, which is what the budget is made for.
-/

namespace QuickJit

open Outcome

/-! ## Paths -/

/-- The instruction stores into local `x`. -/
def setsLocal (x : Nat) (i : Instruction) : Bool :=
  localIndex i = some x &&
    (i.name.isPutLoc || i.name.isSetLoc || i.name ∈ [OpName.incLoc, .decLoc, .addLoc])

/-- The last instruction of a trace that set local `x`. -/
def lastSetting (x : Nat) (trace : List Instruction) : Option Instruction :=
  (trace.filter (setsLocal x)).getLast?

/-- Some path of the graph has executed `trace` and stands before instruction
`n` of block `b`. -/
inductive GraphPath (f : VerifiedFunction) : BasicBlock → Nat → List Instruction → Prop
  | entry {b : BasicBlock} (hb : f.cfg.block 0 = some b) : GraphPath f b 0 []
  | next {b : BasicBlock} {n : Nat} {trace : List Instruction} {i : Instruction}
      (hpath : GraphPath f b n trace) (hi : (b.instructions f.instructions)[n]? = some i) :
      GraphPath f b (n + 1) (trace ++ [i])
  | edge {b b' : BasicBlock} {successor : Nat} {trace : List Instruction}
      (hpath : GraphPath f b (b.instructions f.instructions).length trace)
      (hsucc : successor ∈ b.successors) (hb' : f.cfg.block successor = some b') :
      GraphPath f b' 0 trace

/-- After the trace, local `x` is as `set_loc_uninitialized` left it. -/
def LeftUninitialized (x : Nat) (trace : List Instruction) : Prop :=
  ∃ i, lastSetting x trace = some i ∧ i.name = .setLocUninitialized

/-- The access of local `x` is checked. -/
def isCheckedAccess (i : Instruction) : Prop := i.name = .getLocCheck ∨ i.name = .putLocCheck

/-- A path on which a check can fail, or one to a `put_loc_check_init`. -/
inductive LexicalFault (f : VerifiedFunction) : Prop
  | unchecked {b : BasicBlock} {n x : Nat} {trace : List Instruction} {i : Instruction}
      (hpath : GraphPath f b n trace) (hi : (b.instructions f.instructions)[n]? = some i)
      (haccess : isCheckedAccess i) (hx : localIndex i = some x)
      (hleft : LeftUninitialized x trace)
  | initializes {b : BasicBlock} {n : Nat} {trace : List Instruction} {i : Instruction}
      (hpath : GraphPath f b n trace) (hi : (b.instructions f.instructions)[n]? = some i)
      (hname : i.name = .putLocCheckInit)

theorem lastSetting_append (x : Nat) (trace : List Instruction) (i : Instruction) :
    lastSetting x (trace ++ [i]) = if setsLocal x i then some i else lastSetting x trace := by
  unfold lastSetting
  by_cases h : setsLocal x i <;> simp [h]

theorem not_leftUninitialized_nil (x : Nat) : ¬LeftUninitialized x [] := by
  rintro ⟨i, hi, -⟩
  cases hi

theorem leftUninitialized_append {x : Nat} {trace : List Instruction} {i : Instruction} :
    LeftUninitialized x (trace ++ [i]) ↔
      if setsLocal x i then i.name = .setLocUninitialized else LeftUninitialized x trace := by
  unfold LeftUninitialized
  rw [lastSetting_append]
  split
  · simp
  · rfl

/-! ## One instruction -/

/-- The state says that local `x` may be uninitialized. -/
def MayBeUninitialized (state : List Nat) (x : Nat) : Prop :=
  ∃ slot, state[x]? = some slot ∧ slot &&& lexicalMayBeUninitialized ≠ 0

theorem mayBeUninitialized_set {state : List Nat} {index v x : Nat} (hindex : index < state.length) :
    MayBeUninitialized (state.set index v) x ↔
      if index = x then v &&& lexicalMayBeUninitialized ≠ 0 else MayBeUninitialized state x := by
  unfold MayBeUninitialized
  rw [List.getElem?_set]
  split
  case isTrue => simp
  case isFalse => rfl

/-- What an instruction does to the state when it does not object. -/
inductive LexicalEffect (state : List Nat) (i : Instruction) : List Nat → Prop
  | noLocal (h : localIndex i = none) : LexicalEffect state i state
  | unset {index : Nat} (h : localIndex i = some index) (hlt : index < state.length)
      (hname : i.name = .setLocUninitialized) :
      LexicalEffect state i (state.set index lexicalMayBeUninitialized)
  | check {index : Nat} (h : localIndex i = some index) (hlt : index < state.length)
      (hname : isCheckedAccess i) (hslot : ¬MayBeUninitialized state index) :
      LexicalEffect state i (state.set index lexicalMayBeInitialized)
  | store {index : Nat} (h : localIndex i = some index) (hlt : index < state.length)
      (hname : i.name ≠ .setLocUninitialized) (haccess : ¬isCheckedAccess i)
      (hinit : i.name ≠ .putLocCheckInit) (hstore : setsLocal index i = true) :
      LexicalEffect state i (state.set index lexicalMayBeInitialized)
  | other {index : Nat} (h : localIndex i = some index) (haccess : ¬isCheckedAccess i)
      (hinit : i.name ≠ .putLocCheckInit) (hstore : setsLocal index i = false) :
      LexicalEffect state i state

/-- Why an instruction objects. -/
inductive LexicalObjection (state : List Nat) (i : Instruction) : Stop CompileFailure → Prop
  | index {index : Nat} (h : localIndex i = some index) (hlt : ¬index < state.length) :
      LexicalObjection state i (.error .invalidArtifact)
  | check {index : Nat} (h : localIndex i = some index) (hname : isCheckedAccess i)
      (hslot : MayBeUninitialized state index) :
      LexicalObjection state i (.error .unsupportedOpcode)
  | init (hname : i.name = .putLocCheckInit) :
      LexicalObjection state i (.error .unsupportedOpcode)

theorem lexicalInstruction_cases (state : List Nat) (i : Instruction) :
    (∃ state', lexicalInstruction state i = .ok state' ∧ LexicalEffect state i state') ∨
      ∃ e, lexicalInstruction state i = .error e ∧ LexicalObjection state i e := by
  unfold lexicalInstruction
  cases hindex : localIndex i with
  | none => exact .inl ⟨state, rfl, .noLocal hindex⟩
  | some index =>
    cases hslot : state[index]? with
    | none =>
      simp only [hslot]
      exact .inr ⟨_, rfl, .index hindex (Nat.not_lt.mpr (List.getElem?_eq_none_iff.mp hslot))⟩
    | some slot =>
      have hlt := (List.getElem?_eq_some_iff.mp hslot).1
      have hmay : MayBeUninitialized state index ↔ slot &&& lexicalMayBeUninitialized ≠ 0 := by
        simp [MayBeUninitialized, hslot]
      simp only [hslot, okOr, bind, Except.bind]
      split
      case isTrue hname => exact .inl ⟨_, rfl, .unset hindex hlt hname⟩
      case isFalse hname =>
      split
      case isTrue haccess =>
        split
        case isTrue hset => exact .inr ⟨_, rfl, .check hindex haccess (hmay.mpr hset)⟩
        case isFalse hset => exact .inl ⟨_, rfl, .check hindex hlt haccess (mt hmay.mp hset)⟩
      case isFalse haccess =>
      split
      case isTrue hinit => exact .inr ⟨_, rfl, .init hinit⟩
      case isFalse hinit =>
      have hsets : setsLocal index i = (i.name.isPutLoc || i.name.isSetLoc ||
          decide (i.name ∈ [OpName.incLoc, .decLoc, .addLoc])) := by
        simp [setsLocal, hindex]
      split
      case isTrue hstore =>
        exact .inl ⟨_, rfl, .store hindex hlt hname haccess hinit (hsets.trans hstore)⟩
      case isFalse hstore =>
        exact .inl ⟨_, rfl, .other hindex haccess hinit
          (hsets.trans (Bool.eq_false_iff.mpr hstore))⟩

section Instructions

variable {state state' : List Nat} {i : Instruction} {x : Nat}

theorem lexicalInstruction_effect (h : lexicalInstruction state i = .ok state') :
    LexicalEffect state i state' := by
  rcases lexicalInstruction_cases state i with ⟨state₁, h₁, heffect⟩ | ⟨e, h₁, -⟩
  · rw [h] at h₁
    cases h₁
    exact heffect
  · rw [h] at h₁
    cases h₁

theorem lexicalInstruction_objection {e : Stop CompileFailure}
    (h : lexicalInstruction state i = .error e) :
    LexicalObjection state i e := by
  rcases lexicalInstruction_cases state i with ⟨state₁, h₁, -⟩ | ⟨e', h₁, hobjection⟩
  · rw [h] at h₁
    cases h₁
  · rw [h] at h₁
    cases h₁
    exact hobjection

namespace LexicalEffect

theorem length_eq (h : LexicalEffect state i state') : state'.length = state.length := by
  cases h <;> simp

theorem small (h : LexicalEffect state i state') (hsmall : ∀ v ∈ state, v < 4) :
    ∀ v ∈ state', v < 4 := by
  have hset : ∀ index w, w < 4 → ∀ v ∈ state.set index w, v < 4 := by
    intro index w hw v hv
    rcases List.mem_or_eq_of_mem_set hv with hv | rfl
    · exact hsmall v hv
    · exact hw
  cases h with
  | noLocal => exact hsmall
  | unset => exact hset _ _ (by decide)
  | check => exact hset _ _ (by decide)
  | store => exact hset _ _ (by decide)
  | other => exact hsmall

theorem setsLocal_index (h : setsLocal x i = true) : localIndex i = some x := by
  simp only [setsLocal, Bool.and_eq_true, decide_eq_true_eq] at h
  exact h.1

/-- The bits after the instruction: the last setting decides. -/
theorem mayBeUninitialized (h : LexicalEffect state i state') (x : Nat) :
    MayBeUninitialized state' x ↔
      if setsLocal x i then i.name = .setLocUninitialized else MayBeUninitialized state x := by
  have hother : ∀ {index}, localIndex i = some index → index ≠ x → setsLocal x i = false := by
    intro index hindex hne
    refine Bool.eq_false_iff.mpr fun hsets => hne ?_
    exact Option.some.inj (hindex.symm.trans (setsLocal_index hsets))
  cases h with
  | noLocal hnone =>
    have hsets : setsLocal x i = false := by simp [setsLocal, hnone]
    simp [hsets]
  | @unset index hindex hlt hname =>
    rw [mayBeUninitialized_set hlt]
    by_cases hx : index = x
    · subst hx
      have hsets : setsLocal index i = true := by
        simp [setsLocal, hindex, hname, OpName.isPutLoc, OpName.isSetLoc]
      simp [hsets, hname, lexicalMayBeUninitialized]
    · simp [hx, hother hindex hx]
  | @check index hindex hlt hname hslot =>
    rw [mayBeUninitialized_set hlt]
    by_cases hx : index = x
    · -- the bit was not set, and a checked store is not `set_loc_uninitialized`
      subst hx
      have hne : i.name ≠ .setLocUninitialized := by
        rcases hname with hname | hname <;> rw [hname] <;> decide
      simp [hslot, hne, lexicalMayBeUninitialized, lexicalMayBeInitialized]
    · simp [hx, hother hindex hx]
  | @store index hindex hlt hname haccess hinit hstore =>
    rw [mayBeUninitialized_set hlt]
    by_cases hx : index = x
    · subst hx
      simp [hstore, hname, lexicalMayBeUninitialized, lexicalMayBeInitialized]
    · simp [hx, hother hindex hx]
  | @other index hindex haccess hinit hstore =>
    by_cases hx : index = x
    · subst hx
      simp [hstore]
    · simp [hother hindex hx]

/-- An instruction that was let through is no fault. -/
theorem admissible (h : LexicalEffect state i state') (hx : localIndex i = some x) :
    i.name ≠ .putLocCheckInit ∧ (isCheckedAccess i → ¬MayBeUninitialized state x) := by
  cases h with
  | noLocal hnone =>
    rw [hx] at hnone
    cases hnone
  | unset _ _ hname =>
    refine ⟨by rw [hname]; decide, ?_⟩
    rintro (h | h) <;> rw [hname] at h <;> cases h
  | check hindex _ hname hslot =>
    cases hx.symm.trans hindex
    refine ⟨?_, fun _ => hslot⟩
    rcases hname with hname | hname <;> rw [hname] <;> decide
  | store _ _ _ haccess hinit => exact ⟨hinit, fun h => absurd h haccess⟩
  | other _ haccess hinit => exact ⟨hinit, fun h => absurd h haccess⟩

end LexicalEffect

end Instructions

/-! ## States and paths -/

/-- The state at instruction `n` of a block stands for paths to it. -/
structure LexicalAt (f : VerifiedFunction) (b : BasicBlock) (n : Nat) (state : List Nat) : Prop where
  length_eq : state.length = f.snapshot.localCount.toNat
  small : ∀ v ∈ state, v < 4
  reached : ∃ trace, GraphPath f b n trace
  flagged : ∀ x, MayBeUninitialized state x → ∃ trace, GraphPath f b n trace ∧
    LeftUninitialized x trace

section Paths

variable {f : VerifiedFunction} {b : BasicBlock} {n : Nat} {state state' : List Nat} {i : Instruction}

theorem LexicalAt.step (h : LexicalAt f b n state)
    (hi : (b.instructions f.instructions)[n]? = some i) (heffect : LexicalEffect state i state') :
    LexicalAt f b (n + 1) state' := by
  obtain ⟨trace, hpath⟩ := h.reached
  refine ⟨heffect.length_eq.trans h.length_eq, heffect.small h.small, ⟨_, hpath.next hi⟩, ?_⟩
  intro x hx
  rw [heffect.mayBeUninitialized x] at hx
  split at hx
  case isTrue hsets =>
    -- any path to the instruction will do
    refine ⟨trace ++ [i], hpath.next hi, ?_⟩
    rw [leftUninitialized_append, if_pos hsets]
    exact hx
  case isFalse hsets =>
    obtain ⟨trace', hpath', hleft⟩ := h.flagged x hx
    refine ⟨trace' ++ [i], hpath'.next hi, ?_⟩
    rw [leftUninitialized_append, if_neg hsets]
    exact hleft

/-- An objection inside the bounds has found a fault. -/
theorem LexicalAt.fault {e : Stop CompileFailure} (h : LexicalAt f b n state)
    (hi : (b.instructions f.instructions)[n]? = some i)
    (hbound : ∀ x, localIndex i = some x → x < f.snapshot.localCount.toNat)
    (hobjection : LexicalObjection state i e) :
    LexicalFault f ∧ e = .error .unsupportedOpcode := by
  cases hobjection with
  | index hindex hlt => exact absurd (h.length_eq ▸ hbound _ hindex) hlt
  | check hindex hname hslot =>
    obtain ⟨trace, hpath, hleft⟩ := h.flagged _ hslot
    exact ⟨.unchecked hpath hi hname hindex hleft, rfl⟩
  | init hname =>
    obtain ⟨trace, hpath⟩ := h.reached
    exact ⟨.initializes hpath hi hname, rfl⟩

end Paths

/-! ## The walk as a dataflow problem -/

/-- Join a state into an old one. -/
def lexicalJoin (existing state : List Nat) : List Nat :=
  existing.zipWith (· ||| ·) state ++ existing.drop state.length

/-- `prove_lexical_checks` as a dataflow problem; nothing is collected. -/
def lexicalFlow (f : VerifiedFunction) : Dataflow Nat (List Nat) Unit CompileFailure where
  transfer _ pc state := do
    let block ← Outcome.okOr .invalidArtifact (f.cfg.block pc)
    let state ← (block.instructions f.instructions).foldlM lexicalInstruction state
    .ok ((), block.successors.map fun successor => (successor, state))
  merge _ old state :=
    match old with
    | some existing =>
      .ok (lexicalJoin existing state, decide (lexicalJoin existing state ≠ existing))
    | none => .ok (state, true)
  enqueue queue pc := queue ++ [pc]
  missing := .invalidArtifact
  exhausted := .error .resourceLimit

theorem lexicalFlow_transfer (f : VerifiedFunction) (pc : Nat) (state : List Nat) :
    (lexicalFlow f).transfer () pc state =
      okOr .invalidArtifact (f.cfg.block pc) >>= fun block =>
        (block.instructions f.instructions).foldlM lexicalInstruction state >>= fun state =>
          .ok ((), block.successors.map fun successor => (successor, state)) := rfl

theorem lexicalFlow_offer (f : VerifiedFunction) (state : List Nat)
    (w : OrdMap Nat (List Nat) × List Nat) (successor : Nat) :
    (lexicalFlow f).offer w (successor, state) = .ok (lexicalSuccessor state w successor) := by
  unfold Dataflow.offer lexicalSuccessor
  cases h : w.1.get? successor with
  | none => simp [lexicalFlow, bind, Except.bind]
  | some existing =>
    simp only [lexicalFlow, bind, Except.bind, decide_eq_true_eq]
    rfl

theorem lexicalFlow_offers (f : VerifiedFunction) (state : List Nat) :
    ∀ (successors : List Nat) (w : OrdMap Nat (List Nat) × List Nat),
      (successors.map fun successor => (successor, state)).foldlM (lexicalFlow f).offer w =
        .ok (successors.foldl (lexicalSuccessor state) w)
  | [], w => rfl
  | successor :: rest, w => by
    rw [List.map_cons, List.foldlM_cons, lexicalFlow_offer, List.foldl_cons]
    exact lexicalFlow_offers f state rest _

/-- The source's loop is the walk of this problem. -/
theorem lexicalWalk_eq (f : VerifiedFunction) :
    ∀ (budget : Nat) (entry : OrdMap Nat (List Nat)) (queue : List Nat),
      lexicalWalk f budget entry queue =
        (lexicalFlow f).walk budget () entry queue >>= fun _ => .ok ()
  | _, _, [] => by simp only [lexicalWalk, Dataflow.walk]; rfl
  | 0, _, _ :: _ => rfl
  | budget + 1, entry, pc :: queue => by
    rw [lexicalWalk]
    cases hentry : entry.get? pc with
    | none =>
      rw [Dataflow.walk, hentry]
      cases f.cfg.block pc <;> rfl
    | some state =>
      rw [Dataflow.walk_turn hentry, lexicalFlow_transfer]
      cases f.cfg.block pc with
      | none => rfl
      | some block =>
        cases hstate : (block.instructions f.instructions).foldlM lexicalInstruction state with
        | error e => simp only [okOr, bind, Except.bind, hstate]
        | ok state' =>
          simp only [okOr, bind, Except.bind, hstate, lexicalFlow_offers]
          exact lexicalWalk_eq f budget _ _

/-! ## LexicalJoins -/

def slotBits (v : Nat) : Nat := v % 2 + v / 2 % 2

/-- How many bits a state has. -/
def lexicalRank (state : List Nat) : Nat := (state.map slotBits).sum

/-- A slot has two bits; joining adds bits. -/
theorem slot_join : ∀ a < 4, ∀ b < 4, a ||| b < 4 ∧
    (slotBits a < slotBits (a ||| b) ∨ a ||| b = a) ∧
    ((a ||| b) &&& lexicalMayBeUninitialized ≠ 0 ↔
      a &&& lexicalMayBeUninitialized ≠ 0 ∨ b &&& lexicalMayBeUninitialized ≠ 0) := by
  decide

theorem lexicalRank_le (state : List Nat) : lexicalRank state ≤ 2 * state.length := by
  have hslot : ∀ n ∈ state.map slotBits, n ≤ 2 := by
    intro n hn
    obtain ⟨v, -, rfl⟩ := List.mem_map.mp hn
    unfold slotBits
    omega
  have hsum := List.sum_le_card_nsmul _ 2 hslot
  rw [List.length_map, smul_eq_mul] at hsum
  unfold lexicalRank
  omega

/-- What a join of two states over the same locals is. -/
structure LexicalJoins (existing state joined : List Nat) : Prop where
  length_eq : joined.length = existing.length
  small : ∀ v ∈ joined, v < 4
  rank : lexicalRank existing < lexicalRank joined ∨ joined = existing
  may : ∀ x, MayBeUninitialized joined x ↔ MayBeUninitialized existing x ∨ MayBeUninitialized state x

theorem mayBeUninitialized_cons {v : Nat} {state : List Nat} :
    ∀ x, MayBeUninitialized (v :: state) x ↔
      if x = 0 then v &&& lexicalMayBeUninitialized ≠ 0 else MayBeUninitialized state (x - 1)
  | 0 => by simp [MayBeUninitialized]
  | x + 1 => by simp [MayBeUninitialized]

theorem lexicalJoin_joins : ∀ {existing state : List Nat}, existing.length = state.length →
    (∀ v ∈ existing, v < 4) → (∀ v ∈ state, v < 4) →
    LexicalJoins existing state (lexicalJoin existing state)
  | [], [], _, _, _ => ⟨rfl, by simp [lexicalJoin], .inr rfl, fun x => by
      simp [lexicalJoin, MayBeUninitialized]⟩
  | v :: existing, w :: state, hlen, hv, hw => by
    have ih := lexicalJoin_joins (Nat.succ.inj hlen)
      (fun u hu => hv u (List.mem_cons_of_mem v hu)) (fun u hu => hw u (List.mem_cons_of_mem w hu))
    obtain ⟨hsmall, hrank, hmay⟩ := slot_join v (hv v List.mem_cons_self) w (hw w List.mem_cons_self)
    have hcons : lexicalJoin (v :: existing) (w :: state) =
        (v ||| w) :: lexicalJoin existing state := by
      simp [lexicalJoin]
    rw [hcons]
    refine ⟨congrArg Nat.succ ih.length_eq, ?_, ?_, fun x => ?_⟩
    · intro u hu
      rcases List.mem_cons.mp hu with rfl | hu
      · exact hsmall
      · exact ih.small u hu
    · simp only [lexicalRank, List.map_cons, List.sum_cons]
      have hrest := ih.rank
      unfold lexicalRank at hrest
      rcases hrank with hrank | hrank <;> rcases hrest with hrest | hrest
      · exact .inl (by omega)
      · exact .inl (by rw [hrest]; omega)
      · exact .inl (by rw [hrank]; omega)
      · exact .inr (by rw [hrank, hrest])
    · rw [mayBeUninitialized_cons, mayBeUninitialized_cons, mayBeUninitialized_cons]
      split
      · exact hmay
      · exact ih.may (x - 1)

/-! ## The walk on a verified function -/

/-- The state at the entry of a block the verifier has reached. -/
structure LexicalEntry (f : VerifiedFunction) (p : Proving) (pc : Nat) (state : List Nat) :
    Prop where
  tracked : ∃ E, p.entries.get? pc = some E
  located : ∃ b, f.cfg.block pc = some b ∧ LexicalAt f b 0 state

/-- Everything one state flags, the other does. -/
def LexicalBelow (a b : List Nat) : Prop := ∀ x, MayBeUninitialized a x → MayBeUninitialized b x

section Walk

variable {f : VerifiedFunction} {b : BasicBlock} {n pc maxWorkUnits : Nat} {p : Proving}
  {existing state state' : List Nat}

theorem lexicalPosition {is : List Instruction} {i : Instruction}
    {pre post : List Instruction} (h : b.instructions is = pre ++ i :: post) :
    (b.instructions is)[pre.length]? = some i := by
  rw [h]
  simp

theorem LexicalAt.run (h : LexicalAt f b 0 state)
    (hrun : (b.instructions f.instructions).foldlM lexicalInstruction state = .ok state') :
    LexicalAt f b (b.instructions f.instructions).length state' := by
  refine foldlM_inv (P := fun pre s => LexicalAt f b pre.length s) hrun h ?_
  intro pre i post s s' hl hs hstep
  rw [List.length_append, List.length_singleton]
  exact hs.step (lexicalPosition hl) (lexicalInstruction_effect hstep)

theorem LexicalAt.edge {b' : BasicBlock} {successor : Nat}
    (h : LexicalAt f b (b.instructions f.instructions).length state)
    (hsucc : successor ∈ b.successors) (hb' : f.cfg.block successor = some b') :
    LexicalAt f b' 0 state := by
  obtain ⟨trace, hpath⟩ := h.reached
  refine ⟨h.length_eq, h.small, ⟨trace, hpath.edge hsucc hb'⟩, fun x hx => ?_⟩
  obtain ⟨trace', hpath', hleft⟩ := h.flagged x hx
  exact ⟨trace', hpath'.edge hsucc hb', hleft⟩

theorem LexicalAt.join {joined : List Nat} (h : LexicalAt f b n existing)
    (h' : LexicalAt f b n state) (hj : LexicalJoins existing state joined) :
    LexicalAt f b n joined :=
  ⟨hj.length_eq.trans h.length_eq, hj.small, h.reached,
    fun x hx => ((hj.may x).mp hx).elim (h.flagged x) (h'.flagged x)⟩

theorem LexicalAt.joins (h : LexicalAt f b n existing) (h' : LexicalAt f b n state) :
    LexicalJoins existing state (lexicalJoin existing state) :=
  lexicalJoin_joins (h.length_eq.trans h'.length_eq.symm) h.small h'.small

/-- The verifier follows every edge. -/
theorem Solved.successor_tracked (h : Solved f maxWorkUnits p)
    (htracked : ∃ E, p.entries.get? pc = some E) (hb : f.cfg.block pc = some b) :
    ∀ successor ∈ b.successors, ∃ E, p.entries.get? successor = some E := by
  intro successor hsucc
  obtain ⟨E, hE⟩ := htracked
  obtain ⟨b', hb', hclosed⟩ := h.closed pc E hE
  cases hb.symm.trans hb'
  have hmem := (h.cfg_ok.block_iff.mp hb).1
  have hlength : (b.instructions f.instructions).length - 1 <
      (b.instructions f.instructions).length := by
    have hlast := h.cfg_ok.last_le hmem
    have hfirst := h.cfg_ok.first_lt hmem
    simp only [BasicBlock.instructions, List.length_take, List.length_drop]
    omega
  obtain ⟨A, A', -, -, -, -, -, -, hedges⟩ := hclosed _ _ (List.getElem?_eq_getElem hlength)
  have hend : (b.instructions f.instructions).length - 1 + 1 =
      (b.instructions f.instructions).length := by omega
  obtain ⟨S, hS, -⟩ := hedges hend successor hsucc
  exact ⟨S, hS⟩

theorem Solved.tracked_block (h : Solved f maxWorkUnits p)
    (htracked : ∃ E, p.entries.get? pc = some E) :
    ∃ b, f.cfg.block pc = some b := by
  obtain ⟨E, hE⟩ := htracked
  obtain ⟨b, hb, -⟩ := h.closed pc E hE
  exact ⟨b, hb⟩

/-- A transfer that succeeds has run the block. -/
theorem lexicalFlow_transfer_ok {outs : List (Nat × List Nat)} {s s' : Unit}
    (hb : f.cfg.block pc = some b) (h : (lexicalFlow f).transfer s pc state = .ok (s', outs)) :
    ∃ state', (b.instructions f.instructions).foldlM lexicalInstruction state = .ok state' ∧
      outs = b.successors.map fun successor => (successor, state') := by
  rw [lexicalFlow_transfer] at h
  obtain ⟨b', hb', h⟩ := bind_eq_ok.mp h
  cases hb.symm.trans (okOr_eq_ok.mp hb')
  obtain ⟨state', hstate, h⟩ := bind_eq_ok.mp h
  cases h
  exact ⟨state', hstate, rfl⟩

theorem lexicalFlow_lawful (hsolved : Solved f maxWorkUnits p) :
    (lexicalFlow f).Lawful (LexicalEntry f p) LexicalBelow (fun _ _ => True) where
  below_refl a := fun x hx => hx
  below_trans hab hbc := fun x hx => hbc x (hab x hx)
  grows_refl _ := trivial
  grows_trans _ _ := trivial
  transfer_grows _ := trivial
  transfer_holds := by
    intro s pc state s' outs hstate h out hout
    obtain ⟨b, hb, hat⟩ := hstate.located
    obtain ⟨state', hrun, rfl⟩ := lexicalFlow_transfer_ok hb h
    obtain ⟨successor, hsucc, rfl⟩ := List.mem_map.mp hout
    have htracked := hsolved.successor_tracked hstate.tracked hb successor hsucc
    obtain ⟨b', hb'⟩ := hsolved.tracked_block htracked
    exact ⟨htracked, b', hb', (hat.run hrun).edge hsucc hb'⟩
  merge_holds := by
    intro pc old state m changed h hold hstate
    cases old with
    | none =>
      cases h
      exact hstate
    | some existing =>
      cases h
      obtain ⟨b, hb, hat⟩ := (hold existing rfl).located
      obtain ⟨b', hb', hat'⟩ := hstate.located
      cases hb.symm.trans hb'
      exact ⟨hstate.tracked, b, hb, hat.join hat' (hat.joins hat')⟩
  merge_above := by
    intro pc old state m changed h hold hstate
    cases old with
    | none =>
      cases h
      exact ⟨fun x hx => hx, fun e he => by cases he⟩
    | some existing =>
      cases h
      obtain ⟨b, hb, hat⟩ := (hold existing rfl).located
      obtain ⟨b', hb', hat'⟩ := hstate.located
      cases hb.symm.trans hb'
      have hj := hat.joins hat'
      refine ⟨fun x hx => (hj.may x).mpr (.inr hx), fun e he => ?_⟩
      cases he
      exact fun x hx => (hj.may x).mpr (.inl hx)
  merge_same := by
    intro pc old state m h
    cases old with
    | none => simp [lexicalFlow] at h
    | some existing =>
      simp only [lexicalFlow, Except.ok.injEq, Prod.mk.injEq, decide_eq_false_iff_not,
        not_not] at h
      rw [← h.1, h.2]
  mem_enqueue := by
    intro queue pc x
    simp [lexicalFlow, or_comm]

def blockStarts (f : VerifiedFunction) : Finset Nat :=
  (f.cfg.blocks.map BasicBlock.startPc).toFinset

theorem lexicalFlow_bounded (hsolved : Solved f maxWorkUnits p) :
    (lexicalFlow f).Bounded (LexicalEntry f p) (blockStarts f) (2 * f.snapshot.localCount.toNat)
      lexicalRank where
  mem_nodes := by
    intro pc state hstate
    obtain ⟨b, hb, -⟩ := hstate.located
    obtain ⟨hmem, rfl⟩ := hsolved.cfg_ok.block_iff.mp hb
    exact List.mem_toFinset.mpr (List.mem_map_of_mem hmem)
  rank_le := by
    intro pc state hstate
    obtain ⟨b, -, hat⟩ := hstate.located
    exact hat.length_eq ▸ lexicalRank_le state
  merge_rank := by
    intro pc existing state m h hold hstate
    obtain ⟨b, hb, hat⟩ := hold.located
    obtain ⟨b', hb', hat'⟩ := hstate.located
    cases hb.symm.trans hb'
    simp only [lexicalFlow, Except.ok.injEq, Prod.mk.injEq, decide_eq_true_eq] at h
    obtain ⟨rfl, hne⟩ := h
    exact (hat.joins hat').rank.resolve_right hne
  merge_total := by
    intro pc old state e h
    cases old <;> cases h
  enqueue_length := by
    intro queue pc
    simp [lexicalFlow]

end Walk

/-! ## What the verifier has checked -/

section Verified

variable {table : OpcodeTable} {fuel : Nat} {snapshot : CompileSnapshot} {limits : VerifyLimits}
  {f : VerifiedFunction} {proof : StateProof}

theorem validateIndices_mem :
    ∀ {is : List Instruction}, validateIndices snapshot is = .ok () →
      ∀ i ∈ is, validateIndex snapshot i = .ok ()
  | [], _, i, hi => by cases hi
  | j :: rest, h, i, hi => by
    simp only [validateIndices, bind_eq_ok] at h
    obtain ⟨u, hj, hrest⟩ := h
    rcases List.mem_cons.mp hi with rfl | hi
    · exact hj
    · exact validateIndices_mem hrest i hi

/-- The local an instruction names is one of the frame's. -/
theorem validateIndex_local {i : Instruction} {x : Nat} (h : validateIndex snapshot i = .ok ())
    (hx : localIndex i = some x) :
    x < snapshot.localCount.toNat := by
  obtain ⟨width, hop⟩ : ∃ width, indexedOperand i = .ok (some (.loc, x, width)) := by
    unfold localIndex at hx
    split at hx
    case h_1 hformat =>
      cases hx
      exact ⟨_, by simp only [indexedOperand, hformat]; rfl⟩
    case h_2 hformat =>
      cases hx
      exact ⟨_, by simp only [indexedOperand, hformat]; rfl⟩
    case h_3 hformat =>
      exact ⟨_, by simp only [indexedOperand, hformat, hx]; rfl⟩
    case h_4 => cases hx
  rw [validateIndex, hop] at h
  simp only [bind, Except.bind, IndexSpace.count] at h
  have hcount := snapshot.localCount.toNat_lt
  have hlt := (ite_reject_eq_ok.mp h).1
  unfold satAddU32 at hlt
  omega

theorem Verification.row (h : Verification table fuel snapshot limits f proof) :
    ∀ i ∈ f.instructions, ∃ k, table k = some i.opcode :=
  fun i hi => ((decodeInstructions_iff.mp h.decoded).2.1.row i hi).1

/-- There are no more blocks than bytes. -/
theorem Verification.blocks_le (h : Verification table fuel snapshot limits f proof) :
    (blockStarts f).card = f.cfg.blocks.length ∧
      f.cfg.blocks.length ≤ snapshot.bytecode.length := by
  have hnodup : (f.cfg.blocks.map BasicBlock.startPc).Nodup :=
    h.cfg_ok.starts_sorted.imp fun hlt => Nat.ne_of_lt hlt
  have hcard : (blockStarts f).card = f.cfg.blocks.length := by
    rw [blockStarts, List.toFinset_card_of_nodup hnodup, List.length_map]
  have hsub : blockStarts f ⊆ Finset.range snapshot.bytecode.length := by
    intro pc hpc
    obtain ⟨b, hb, rfl⟩ := List.mem_map.mp (List.mem_toFinset.mp hpc)
    obtain ⟨i, hi, hstart⟩ := h.cfg_ok.start_pc hb
    have hle := (decodeInstructions_covers h.decoded).pc_le i (List.mem_of_getElem? hi)
    exact Finset.mem_range.mpr (by omega)
  have hle := Finset.card_le_card hsub
  rw [Finset.card_range, hcard] at hle
  exact ⟨hcard, hle⟩

end Verified

/-! ## Exactness -/

/-- The entry state: every local is `undefined`. -/
def lexicalStart (f : VerifiedFunction) : OrdMap Nat (List Nat) :=
  OrdMap.empty.insert 0 (List.replicate f.snapshot.localCount.toNat lexicalMayBeInitialized)

section Exactness

variable {f : VerifiedFunction} {maxWorkUnits budget n : Nat} {p : Proving} {b : BasicBlock}
  {i : Instruction} {body trace : List Instruction} {state : List Nat} {s : Unit}
  {entries : OrdMap Nat (List Nat)}

theorem lexicalStart_get? {pc : Nat} (h : (lexicalStart f).get? pc = some state) :
    pc = 0 ∧ state = List.replicate f.snapshot.localCount.toNat lexicalMayBeInitialized :=
  (OrdMap.get?_insert_cases h).resolve_right nofun

theorem lexicalStart_sound (hsolved : Solved f maxWorkUnits p) :
    (lexicalFlow f).Sound (LexicalEntry f p) LexicalBelow (fun _ _ => True) () (lexicalStart f)
      [0] := by
  refine ⟨fun pc state hget => ?_, fun pc hpc => ?_, fun pc state hget => ?_⟩
  · obtain ⟨rfl, rfl⟩ := lexicalStart_get? hget
    obtain ⟨E, hE, -⟩ := hsolved.invariant.start
    obtain ⟨b, hb⟩ := hsolved.cfg_ok.entry
    refine ⟨⟨E, hE⟩, b, hb, List.length_replicate, fun v hv => ?_, ⟨[], .entry hb⟩, ?_⟩
    · rw [List.eq_of_mem_replicate hv]
      decide
    · rintro x ⟨slot, hslot, hne⟩
      rw [List.eq_of_mem_replicate (List.mem_of_getElem? hslot)] at hne
      exact absurd rfl hne
  · obtain rfl := List.mem_singleton.mp hpc
    exact ⟨_, OrdMap.get?_insert_self _ _ _⟩
  · obtain ⟨rfl, -⟩ := lexicalStart_get? hget
    exact .inl List.mem_cons_self

/-- The state some way into a block, when the whole block goes through. -/
theorem lexicalPrefix {state' : List Nat} (h : body.foldlM lexicalInstruction state = .ok state')
    (n : Nat) : ∃ state₁, (body.take n).foldlM lexicalInstruction state = .ok state₁ := by
  rw [← List.take_append_drop n body, List.foldlM_append] at h
  obtain ⟨state₁, h₁, -⟩ := bind_eq_ok.mp h
  exact ⟨state₁, h₁⟩

theorem lexicalPrefix_step {state₁ state₂ : List Nat} (hi : body[n]? = some i)
    (h₁ : (body.take n).foldlM lexicalInstruction state = .ok state₁)
    (h₂ : (body.take (n + 1)).foldlM lexicalInstruction state = .ok state₂) :
    LexicalEffect state₁ i state₂ := by
  rw [List.take_add_one, hi, List.foldlM_append, Option.toList_some] at h₂
  obtain ⟨state₃, h₃, h₂⟩ := bind_eq_ok.mp h₂
  cases h₁.symm.trans h₃
  rw [List.foldlM_cons] at h₂
  obtain ⟨state₄, h₄, h₂⟩ := bind_eq_ok.mp h₂
  cases h₂
  exact lexicalInstruction_effect h₄

/-- The finished states cover what happens on every path. -/
structure PathCovered (f : VerifiedFunction) (entries : OrdMap Nat (List Nat)) (b : BasicBlock)
    (n : Nat) (trace : List Instruction) : Prop where
  block : f.cfg.block b.startPc = some b
  covered : ∃ E state state', entries.get? b.startPc = some E ∧
    (b.instructions f.instructions).foldlM lexicalInstruction E = .ok state' ∧
    ((b.instructions f.instructions).take n).foldlM lexicalInstruction E = .ok state ∧
    ∀ x, LeftUninitialized x trace → MayBeUninitialized state x

theorem GraphPath.covered (hsolved : Solved f maxWorkUnits p)
    (hsound : (lexicalFlow f).Sound (LexicalEntry f p) LexicalBelow (fun _ _ => True) s entries [])
    (hstart : ∃ E, entries.get? 0 = some E) (hpath : GraphPath f b n trace) :
    PathCovered f entries b n trace := by
  -- a block with an entry is covered at its start by what is below the entry
  have henter : ∀ {pc b trace E}, f.cfg.block pc = some b → entries.get? pc = some E →
      (∀ x, LeftUninitialized x trace → MayBeUninitialized E x) →
      PathCovered f entries b 0 trace := by
    intro pc b trace E hb hE hleft
    obtain rfl := (hsolved.cfg_ok.block_iff.mp hb).2
    obtain ⟨s₀, s₁, outs, ht, -, -⟩ := (hsound.settled _ E hE).resolve_left (by simp)
    obtain ⟨state', hrun, -⟩ := lexicalFlow_transfer_ok hb ht
    exact ⟨hb, E, E, state', hE, hrun, rfl, hleft⟩
  induction hpath with
  | entry hb =>
    obtain ⟨E, hE⟩ := hstart
    exact henter hb hE fun x hx => absurd hx (not_leftUninitialized_nil x)
  | @next b n trace i _ hi ih =>
    obtain ⟨E, state, state', hE, hrun, hstate, hleft⟩ := ih.covered
    obtain ⟨state₁, hstate₁⟩ := lexicalPrefix hrun (n + 1)
    refine ⟨ih.block, E, state₁, state', hE, hrun, hstate₁, fun x hx => ?_⟩
    rw [(lexicalPrefix_step hi hstate hstate₁).mayBeUninitialized x]
    rw [leftUninitialized_append] at hx
    split at hx
    case isTrue hsets => exact (if_pos hsets).symm ▸ hx
    case isFalse hsets => exact (if_neg hsets).symm ▸ hleft x hx
  | @edge b b' successor trace _ hsucc hb' ih =>
    obtain ⟨E, state, state', hE, hrun, hstate, hleft⟩ := ih.covered
    obtain ⟨s₀, s₁, outs, ht, -, hcovered⟩ := (hsound.settled _ E hE).resolve_left (by simp)
    obtain ⟨state₂, hrun₂, rfl⟩ := lexicalFlow_transfer_ok ih.block ht
    rw [List.take_length, hrun₂] at hstate
    cases hstate
    obtain ⟨E', hE', hbelow⟩ := hcovered _ (List.mem_map_of_mem hsucc)
    exact henter hb' hE' fun x hx => hbelow x (hleft x hx)

theorem PathCovered.effect (h : PathCovered f entries b n trace)
    (hi : (b.instructions f.instructions)[n]? = some i) :
    ∃ state state', LexicalEffect state i state' ∧
      ∀ x, LeftUninitialized x trace → MayBeUninitialized state x := by
  obtain ⟨E, state, state', -, hrun, hstate, hleft⟩ := h.covered
  obtain ⟨state₁, hstate₁⟩ := lexicalPrefix hrun (n + 1)
  exact ⟨state, state₁, lexicalPrefix_step hi hstate hstate₁, hleft⟩

theorem mem_of_mem_block {is : List Instruction} (hi : (b.instructions is)[n]? = some i) : i ∈ is :=
  List.mem_of_mem_drop (List.mem_of_mem_take (List.mem_of_getElem? hi))

/-- A walk that ends has missed no fault. -/
theorem lexicalWalk_complete (hsolved : Solved f maxWorkUnits p)
    (hinit : ∀ i ∈ f.instructions, i.name = .putLocCheckInit → ∃ x, localIndex i = some x)
    (hwalk : (lexicalFlow f).walk budget () (lexicalStart f) [0] = .ok (s, entries)) :
    ¬LexicalFault f := by
  obtain ⟨hsound, habove⟩ :=
    Dataflow.walk_settled (lexicalFlow_lawful hsolved) (lexicalStart_sound hsolved) hwalk
  obtain ⟨E, hE, -⟩ := habove 0 _ (OrdMap.get?_insert_self _ _ _)
  intro hfault
  cases hfault with
  | unchecked hpath hi haccess hx hleft =>
    obtain ⟨state, state', heffect, hmay⟩ :=
      (hpath.covered hsolved hsound ⟨E, hE⟩).effect hi
    exact (heffect.admissible hx).2 haccess (hmay _ hleft)
  | initializes hpath hi hname =>
    obtain ⟨state, state', heffect, -⟩ := (hpath.covered hsolved hsound ⟨E, hE⟩).effect hi
    obtain ⟨x, hx⟩ := hinit _ (mem_of_mem_block hi) hname
    exact (heffect.admissible hx).1 hname

/-- A walk that fails has found a fault. -/
theorem lexicalWalk_faulty {e : Stop CompileFailure} (hsolved : Solved f maxWorkUnits p)
    (hbound : ∀ i ∈ f.instructions, ∀ x, localIndex i = some x → x < f.snapshot.localCount.toNat)
    (hbudget : (blockStarts f).card * (2 * f.snapshot.localCount.toNat + 1) + 1 ≤ budget)
    (hwalk : (lexicalFlow f).walk budget () (lexicalStart f) [0] = .error e) :
    LexicalFault f ∧ e = .error .unsupportedOpcode := by
  have hroom : Dataflow.potential (blockStarts f) (2 * f.snapshot.localCount.toNat) lexicalRank
      (lexicalStart f, [0]) ≤ budget := by
    have hsum := Finset.sum_le_card_nsmul (blockStarts f)
      (fun pc => Dataflow.room (2 * f.snapshot.localCount.toNat) lexicalRank
        ((lexicalStart f).get? pc)) (2 * f.snapshot.localCount.toNat + 1) fun pc _ => by
          cases (lexicalStart f).get? pc with
          | none => exact Nat.le_refl _
          | some state => exact Nat.le_succ_of_le (Nat.sub_le _ _)
    rw [smul_eq_mul] at hsum
    simp only [Dataflow.potential, List.length_singleton]
    omega
  obtain ⟨s, pc, state, hentry, ht⟩ := Dataflow.walk_fails (lexicalFlow_bounded hsolved)
    (lexicalFlow_lawful hsolved) (lexicalStart_sound hsolved) hroom hwalk
  obtain ⟨b, hb, hat⟩ := hentry.located
  rw [lexicalFlow_transfer, hb] at ht
  cases hrun : (b.instructions f.instructions).foldlM lexicalInstruction state with
  | ok state' =>
    simp only [okOr, bind, Except.bind, hrun] at ht
    cases ht
  | error e' =>
    simp only [okOr, bind, Except.bind, hrun] at ht
    cases ht
    -- the instruction that objects is reached in a state that stands for paths
    obtain ⟨pre, i, post, state', hl, hat', hobject⟩ :=
      foldlM_error (P := fun pre s => LexicalAt f b pre.length s) hrun hat
        (fun pre i post s s' hl hs hstep => by
          rw [List.length_append, List.length_singleton]
          exact hs.step (lexicalPosition hl) (lexicalInstruction_effect hstep))
    have hi := lexicalPosition hl
    exact hat'.fault hi (hbound i (mem_of_mem_block hi)) (lexicalInstruction_objection hobject)

/-- The budget of `prove_lexical_checks` does not saturate. -/
theorem lexicalBudget {blocks localCount : Nat} (hblocks : blocks < 2 ^ 32)
    (hlocals : localCount < 2 ^ 16) :
    satAdd (min (blocks * (localCount * 2 + 1)) usizeMax) 1 = blocks * (2 * localCount + 1) + 1 := by
  have hle : blocks * (2 * localCount + 1) ≤ (2 ^ 32 - 1) * (2 ^ 17 - 1) :=
    Nat.mul_le_mul (by omega) (by omega)
  rw [Nat.mul_comm localCount 2]
  unfold satAdd usizeMax
  omega

/-- Some instruction sets or checks lexical state. -/
def touchesLexical (f : VerifiedFunction) : Bool :=
  f.instructions.any fun i => i.name ∈ [OpName.getLocCheck, .putLocCheck, .putLocCheckInit,
    .setLocUninitialized]

theorem proveLexicalChecks_walk (hblocks : f.cfg.blocks.length < 2 ^ 32)
    (htouches : touchesLexical f = true) :
    proveLexicalChecks f =
      (lexicalFlow f).walk (f.cfg.blocks.length * (2 * f.snapshot.localCount.toNat + 1) + 1) ()
        (lexicalStart f) [0] >>= fun _ => .ok () := by
  rw [← lexicalBudget hblocks f.snapshot.localCount.toNat_lt, ← lexicalWalk_eq]
  exact if_pos htouches

end Exactness

/-- `prove_lexical_checks` succeeds exactly if no path has a fault; otherwise it
reports an unsupported opcode, and its budget is never used up. The generated
table gives `put_loc_check_init` a local operand. -/
theorem lexical_checks_exact {table : OpcodeTable} {fuel : Nat} {snapshot : CompileSnapshot}
    {limits : VerifyLimits} {f : VerifiedFunction}
    (htable : ∀ k row, table k = some row → row.name = .putLocCheckInit → row.format = .loc)
    (h : verify table fuel snapshot limits = .ok f) :
    (proveLexicalChecks f = .ok () ↔ ¬LexicalFault f) ∧
      (LexicalFault f → proveLexicalChecks f = Outcome.fail .unsupportedOpcode) := by
  obtain ⟨proof, hv⟩ := verify_eq_ok h
  obtain ⟨p, -, hsolved, -⟩ := hv.solved
  obtain ⟨hcard, hblocks⟩ := hv.blocks_le
  have hlen := snapshot.bytecode_lt
  suffices hcases : (proveLexicalChecks f = .ok () ∧ ¬LexicalFault f) ∨
      (proveLexicalChecks f = Outcome.fail .unsupportedOpcode ∧ LexicalFault f) by
    rcases hcases with ⟨hok, hsafe⟩ | ⟨hfail, hfault⟩
    · exact ⟨⟨fun _ => hsafe, fun _ => hok⟩, fun hfault => absurd hfault hsafe⟩
    · refine ⟨⟨fun hok => ?_, fun hsafe => absurd hfault hsafe⟩, fun _ => hfail⟩
      rw [hfail] at hok
      cases hok
  by_cases htouches : touchesLexical f = true
  case neg =>
    refine .inl ⟨if_neg htouches, fun hfault => htouches (List.any_eq_true.mpr ?_)⟩
    cases hfault with
    | unchecked hpath hi haccess _ _ =>
      refine ⟨_, mem_of_mem_block hi, ?_⟩
      rcases haccess with hname | hname <;> simp [hname]
    | initializes hpath hi hname => exact ⟨_, mem_of_mem_block hi, by simp [hname]⟩
  case pos =>
    rw [proveLexicalChecks_walk (by omega) htouches]
    cases hwalk : (lexicalFlow f).walk
      (f.cfg.blocks.length * (2 * f.snapshot.localCount.toNat + 1) + 1) () (lexicalStart f) [0] with
    | ok r =>
      refine .inl ⟨rfl, lexicalWalk_complete hsolved (fun i hi hname => ?_) hwalk⟩
      obtain ⟨k, hk⟩ := hv.row i hi
      exact ⟨_, by rw [localIndex, Instruction.format, htable k _ hk hname]⟩
    | error e =>
      have hbound : ∀ i ∈ f.instructions, ∀ x, localIndex i = some x →
          x < f.snapshot.localCount.toNat := by
        intro i hi x hx
        rw [hv.snapshot_eq]
        exact validateIndex_local (validateIndices_mem hv.indices i hi) hx
      obtain ⟨hfault, rfl⟩ := lexicalWalk_faulty hsolved hbound (by rw [hcard]) hwalk
      exact .inr ⟨rfl, hfault⟩

/-! A local is uninitialized, stored and then read with its check. -/

/-- The rows of the lexical opcodes next to the others. -/
def lexicalTable : OpcodeTable := fun k =>
  if k = 96 then some ⟨96, .setLocUninitialized, 3, 0, 0, .loc⟩
  else if k = 97 then some ⟨97, .getLocCheck, 3, 0, 1, .loc⟩
  else if k = 99 then some ⟨99, .putLocCheckInit, 3, 1, 0, .loc⟩
  else sampleTable k

/-- `set_loc_uninitialized 0; push_0; put_loc0; get_loc_check 0; return`. -/
def lexicalBytecode : List UInt8 := [96, 0, 0, 186, 207, 97, 0, 0, 40]

theorem lexicalBytecode_verified : (verify lexicalTable 10 (sampleSnapshot lexicalBytecode 0 1 1)
    VerifyLimits.default).toOption.isSome = true := by
  decide

/-- The function the verifier makes of it. -/
def lexicalFunction : VerifiedFunction :=
  (verify lexicalTable 10 (sampleSnapshot lexicalBytecode 0 1 1)
    VerifyLimits.default).toOption.get lexicalBytecode_verified

theorem verify_lexicalBytecode : verify lexicalTable 10 (sampleSnapshot lexicalBytecode 0 1 1)
    VerifyLimits.default = .ok lexicalFunction := rfl

theorem lexicalTable_init (k : Nat) (row : Opcode) (h : lexicalTable k = some row)
    (hname : row.name = .putLocCheckInit) : row.format = .loc := by
  unfold lexicalTable at h
  split at h
  · cases h; cases hname
  · split at h
    · cases h; cases hname
    · split at h
      · cases h; rfl
      · have hrow := List.mem_of_find?_eq_some h
        have hnone : ∀ row ∈ sampleRows, row.name ≠ .putLocCheckInit := by decide
        exact absurd hname (hnone row hrow)

theorem lexicalFunction_checked : proveLexicalChecks lexicalFunction = .ok () ∧
    ¬LexicalFault lexicalFunction := by
  have hok : proveLexicalChecks lexicalFunction = .ok () := by decide +kernel
  exact ⟨hok, (lexical_checks_exact lexicalTable_init verify_lexicalBytecode).1.mp hok⟩

end QuickJit
