import QuickJit.Lib.Related
import QuickJit.Bytecode.Stack

/-
  What one `transfer` does, said once.

  `transfer_eq_ok` lists the ways an instruction can succeed. From it follow
  the facts the fixpoint argument rests on:
    `transfer_reshapes`   the stack below some height stays, something is pushed
                          on it, and the live catches are those below that
                          height plus at most one new one on top;
    `transfer_of_related` two states that agree up to a relation on kinds step
                          to states that agree up to it;
    `transfer_below`      a state covered by one that steps also steps, to a
                          covered state.
-/

namespace QuickJit

open Outcome

namespace SlotKind

/-- `general` says no more about a slot than `specific`: `Tagged` covers every
kind of JavaScript value, a catch offset is covered only by itself. -/
def Covers (general specific : SlotKind) : Prop :=
  specific = general ∨ general = .tagged ∧ specific ≠ .catchOffset

instance (a b : SlotKind) : Decidable (Covers a b) := inferInstanceAs (Decidable (_ ∨ _))

theorem Covers.refl (k : SlotKind) : Covers k k := .inl rfl

theorem Covers.trans {a b c : SlotKind} (hab : Covers a b) (hbc : Covers b c) : Covers a c := by
  revert hab hbc
  cases a <;> cases b <;> cases c <;> decide

theorem Covers.catchOffset_iff {a b : SlotKind} (h : Covers a b) :
    b = .catchOffset ↔ a = .catchOffset := by
  revert h
  cases a <;> cases b <;> decide

end SlotKind

/-- Lists of kinds that agree slot by slot up to a relation. -/
abbrev KindsRelated (R : SlotKind → SlotKind → Prop) := List.Forall₂ R

theorem KindsRelated.covers_refl (l : List SlotKind) :
    KindsRelated (fun a b => SlotKind.Covers b a) l l :=
  List.forall₂_same.mpr fun _ _ => .refl _

theorem KindsRelated.covers_trans {l₁ l₂ l₃ : List SlotKind}
    (h₁ : KindsRelated (fun a b => SlotKind.Covers b a) l₁ l₂)
    (h₂ : KindsRelated (fun a b => SlotKind.Covers b a) l₂ l₃) :
    KindsRelated (fun a b => SlotKind.Covers b a) l₁ l₃ :=
  (forall₂_trans h₁ h₂).imp fun _ _ ⟨_, hab, hbc⟩ => hbc.trans hab

namespace AbstractState

/-- Two states with related kinds and the same catches. -/
structure Related (R : SlotKind → SlotKind → Prop) (s t : AbstractState) : Prop where
  locals : KindsRelated R s.locals t.locals
  stack : KindsRelated R s.stack t.stack
  catches : s.catches = t.catches

/-- `s` is covered by `t`. -/
abbrev Below (s t : AbstractState) : Prop := Related (fun a b => SlotKind.Covers b a) s t

/-- `s` and `t` have the same heights and the same catches. -/
abbrev SameShape (s t : AbstractState) : Prop := Related (fun _ _ => True) s t

theorem Below.refl (s : AbstractState) : s.Below s :=
  ⟨KindsRelated.covers_refl _, KindsRelated.covers_refl _, rfl⟩

theorem Below.trans {s t u : AbstractState} (h₁ : s.Below t) (h₂ : t.Below u) : s.Below u :=
  ⟨h₁.locals.covers_trans h₂.locals, h₁.stack.covers_trans h₂.stack, h₁.catches.trans h₂.catches⟩

theorem Related.sameShape {R : SlotKind → SlotKind → Prop} {s t : AbstractState}
    (h : Related R s t) : s.SameShape t :=
  ⟨h.locals.imp fun _ _ _ => trivial, h.stack.imp fun _ _ _ => trivial, h.catches⟩

/-- The catch offsets sit on the stack, in increasing order. -/
structure WellNested (s : AbstractState) : Prop where
  sorted : s.catches.Pairwise (fun a b => a.1 < b.1)
  below : ∀ c ∈ s.catches, c.1 < s.stack.length

end AbstractState

/-! ## Trimming -/

theorem trimCatches_eq_filter {catches : List (Nat × Option Nat)} {height : Nat}
    (h : catches.Pairwise (fun a b => a.1 < b.1)) :
    trimCatches height catches = catches.filter fun c => decide (c.1 < height) := by
  induction catches using List.reverseRecOn with
  | nil => rfl
  | append_singleton rest c ih =>
    obtain ⟨hrest, -, hlast⟩ := List.pairwise_append.mp h
    rw [trimCatches, List.rdropWhile_concat]
    by_cases hc : height ≤ c.1
    · have : ¬c.1 < height := by omega
      simp only [hc, decide_true, if_true, List.filter_append, List.filter_singleton, this,
        decide_false, cond_false, List.append_nil]
      exact ih hrest
    · -- the last entry stays, and every other lies below it
      have hall : ∀ x ∈ rest ++ [c], decide (x.1 < height) = true := by
        intro x hx
        rcases List.mem_append.mp hx with hx | hx
        · have := hlast x hx c (by simp)
          simp; omega
        · rw [List.mem_singleton.mp hx]
          simp; omega
      simp only [hc, decide_false, Bool.false_eq_true, if_false]
      exact (List.filter_eq_self.mpr hall).symm

/-! ## The ways to succeed -/

/-- The slots an instruction leaves alone. -/
def keptSlots (i : Instruction) (s : AbstractState) : List SlotKind :=
  s.stack.take (s.stack.length - effectivePop i)

/-- The slots an instruction pops. -/
def poppedSlots (i : Instruction) (s : AbstractState) : List SlotKind :=
  s.stack.drop (s.stack.length - effectivePop i)

def poppedTop (i : Instruction) (s : AbstractState) : SlotKind :=
  (poppedSlots i s).getLast?.getD .tagged

/-- `s'` is what `nip_catch` makes of `s`. -/
structure NipsCatch (s s' : AbstractState) : Prop where
  result : ∃ value index handler, s.stack.getLast? = some value ∧
    s.catches.getLast? = some (index, handler) ∧
    s.stack.dropLast[index]? = some .catchOffset ∧
    s' = { s with stack := s.stack.dropLast.take index ++ [value], catches := s.catches.dropLast }

/-- The result of a `transfer`, before the stack size is checked. -/
inductive TransferResult (snapshot : CompileSnapshot) (i : Instruction) (s : AbstractState) :
    AbstractState → Prop
  | nipCatch {s' : AbstractState} (hname : i.name = .nipCatch) (h : NipsCatch s s') :
      TransferResult snapshot i s s'
  | next (hname : i.name = .forOfNext ∨ i.name = .forInNext) :
      TransferResult snapshot i s { s with stack := s.stack ++ [.tagged, .tagged] }
  | load {pushed : List SlotKind} (hname : i.name.isGetLoc = true)
      (h : transferLoad i s.locals = .ok pushed) :
      TransferResult snapshot i s (pushState s.locals (keptSlots i s)
        (trimCatches (keptSlots i s).length s.catches) pushed none)
  | push {locals pushed : List SlotKind} {live : Option (Option Nat)}
      (hnip : i.name ≠ .nipCatch) (hnext : ¬(i.name = .forOfNext ∨ i.name = .forInNext))
      (hload : i.name.isGetLoc = false)
      (hlocals : transferLocals i s.locals (poppedTop i s) = .ok locals)
      (hpush : transferPush snapshot i (poppedSlots i s) (poppedTop i s) = .ok (pushed, live)) :
      TransferResult snapshot i s (pushState locals (keptSlots i s)
        (trimCatches (keptSlots i s).length s.catches) pushed live)

section Success

variable {snapshot : CompileSnapshot} {i : Instruction} {s s' : AbstractState}

theorem checkStackSize_eq_ok :
    checkStackSize snapshot i s = .ok s' ↔
      s' = s ∧ s.stack.length ≤ snapshot.stackSize.toNat := by
  unfold checkStackSize
  rw [ite_reject_eq_ok, Nat.not_lt, Except.ok.injEq, eq_comm, and_comm]

theorem transferNipCatch_eq_ok :
    transferNipCatch snapshot i s = .ok s' ↔
      NipsCatch s s' ∧ s'.stack.length ≤ snapshot.stackSize.toNat := by
  unfold transferNipCatch
  constructor
  · intro h
    split at h
    · cases h
    · cases h
    case h_3 value index handler hvalue hcatch =>
      rw [ite_reject_eq_ok, checkStackSize_eq_ok, not_not] at h
      obtain ⟨hslot, rfl, hsize⟩ := h
      exact ⟨⟨value, index, handler, hvalue, hcatch, hslot, rfl⟩, hsize⟩
  · rintro ⟨⟨value, index, handler, hvalue, hcatch, hslot, rfl⟩, hsize⟩
    simp only [hvalue, hcatch]
    rw [ite_reject_eq_ok, checkStackSize_eq_ok, not_not]
    exact ⟨hslot, rfl, hsize⟩

theorem transfer_eq_ok :
    transfer snapshot i s = .ok s' ↔ effectivePop i ≤ s.stack.length ∧
      s'.stack.length ≤ snapshot.stackSize.toNat ∧ TransferResult snapshot i s s' := by
  unfold transfer
  rw [ite_reject_eq_ok, Nat.not_lt]
  refine and_congr_right fun _ => ?_
  by_cases hnip : i.name = .nipCatch
  · rw [if_pos hnip, transferNipCatch_eq_ok, and_comm]
    refine and_congr_right fun _ => ⟨.nipCatch hnip, fun h => ?_⟩
    cases h with
    | nipCatch _ h => exact h
    | next hname => rw [hnip] at hname; simp at hname
    | load hname _ => rw [hnip] at hname; cases hname
    | push h => exact absurd hnip h
  · rw [if_neg hnip]
    by_cases hnext : i.name = .forOfNext ∨ i.name = .forInNext
    · rw [if_pos hnext, checkStackSize_eq_ok]
      constructor
      · rintro ⟨rfl, hsize⟩
        exact ⟨hsize, .next hnext⟩
      · rintro ⟨hsize, h⟩
        cases h with
        | nipCatch hname _ => exact absurd hname hnip
        | next => exact ⟨rfl, hsize⟩
        | load hname _ => rcases hnext with h | h <;> rw [h] at hname <;> cases hname
        | push _ h => exact absurd hnext h
    · rw [if_neg hnext]
      by_cases hload : i.name.isGetLoc = true
      · rw [if_pos hload]
        simp only [bind_eq_ok, checkStackSize_eq_ok]
        constructor
        · rintro ⟨pushed, hpushed, rfl, hsize⟩
          exact ⟨hsize, .load hload hpushed⟩
        · rintro ⟨hsize, h⟩
          cases h with
          | nipCatch hname _ => exact absurd hname hnip
          | next hname => exact absurd hname hnext
          | load _ h => exact ⟨_, h, rfl, hsize⟩
          | push _ _ h => rw [hload] at h; cases h
      · rw [if_neg hload]
        simp only [bind_eq_ok, checkStackSize_eq_ok, Prod.exists]
        constructor
        · rintro ⟨locals, hlocals, pushed, live, hpush, rfl, hsize⟩
          exact ⟨hsize, .push hnip hnext (by simpa using hload) hlocals hpush⟩
        · rintro ⟨hsize, h⟩
          cases h with
          | nipCatch hname _ => exact absurd hname hnip
          | next hname => exact absurd hname hnext
          | load hname _ => exact absurd hname hload
          | push _ _ _ hlocals hpush => exact ⟨_, hlocals, _, _, hpush, rfl, hsize⟩

end Success

/-! ## Related states step to related states -/

section Related

variable {R : SlotKind → SlotKind → Prop} {l l' : List SlotKind} {a b : SlotKind} {n : Nat}
  {i : Instruction}

section

variable (h : KindsRelated R l l')

include h

theorem KindsRelated.getElem? (hb : l'[n]? = some b) :
    ∃ a, l[n]? = some a ∧ R a b := by
  induction h generalizing n with
  | nil => simp at hb
  | cons hab _ ih =>
    cases n with
    | zero =>
      rw [List.getElem?_cons_zero, Option.some.injEq] at hb
      exact ⟨_, List.getElem?_cons_zero, hb ▸ hab⟩
    | succ n => exact ih (by simpa using hb)

theorem KindsRelated.set (n : Nat) (hab : R a b) :
    KindsRelated R (l.set n a) (l'.set n b) := by
  induction h generalizing n with
  | nil => exact .nil
  | cons hcd htail ih =>
    cases n with
    | zero => exact .cons hab htail
    | succ n => exact .cons hcd (ih n)

theorem KindsRelated.getLast? (hb : l'.getLast? = some b) :
    ∃ a, l.getLast? = some a ∧ R a b := by
  rw [List.getLast?_eq_getElem?] at hb ⊢
  rw [h.length_eq]
  exact h.getElem? hb

theorem KindsRelated.dropLast :
    KindsRelated R l.dropLast l'.dropLast := by
  rw [List.dropLast_eq_take, List.dropLast_eq_take, h.length_eq]
  exact List.forall₂_take _ h

theorem KindsRelated.lastD (hrefl : ∀ k, R k k) :
    R (l.getLast?.getD .tagged) (l'.getLast?.getD .tagged) := by
  cases hb : l'.getLast? with
  | none =>
    rw [List.getLast?_eq_none_iff] at hb
    subst hb
    rw [List.forall₂_nil_right_iff.mp h]
    exact hrefl _
  | some b =>
    obtain ⟨a, ha, hab⟩ := h.getLast? hb
    rw [ha]
    exact hab

end

theorem KindsRelated.refl (hrefl : ∀ k, R k k) (l : List SlotKind) : KindsRelated R l l :=
  List.forall₂_same.mpr fun k _ => hrefl k

theorem KindsRelated.getElem?_none (h : KindsRelated R l l') (hb : l'[n]? = none) :
    l[n]? = none := by
  rw [List.getElem?_eq_none_iff] at hb ⊢
  rwa [h.length_eq]

theorem transferLoad_related (h : KindsRelated R l l') :
    Outcome.Refines (KindsRelated R) (transferLoad i l) (transferLoad i l') := by
  unfold transferLoad
  refine .ite Iff.rfl (fun _ => ?_) (fun _ => ?_)
  · intro pushed hload
    split at hload
    case h_1 a b ha hb =>
      cases hload
      obtain ⟨a₀, ha₀, hra⟩ := h.getElem? ha
      obtain ⟨b₀, hb₀, hrb⟩ := h.getElem? hb
      exact ⟨[a₀, b₀], by rw [ha₀, hb₀], .cons hra (.cons hrb .nil)⟩
    · cases hload
  · intro pushed hload
    split at hload
    case h_1 a ha =>
      cases hload
      obtain ⟨k, hk, ha⟩ := Option.bind_eq_some_iff.mp ha
      obtain ⟨a₀, ha₀, hra⟩ := h.getElem? ha
      exact ⟨[a₀], by rw [hk, Option.bind_some, ha₀], .cons hra .nil⟩
    · cases hload

theorem setLocal_related {index : Option Nat} (h : KindsRelated R l l') (hab : R a b) :
    Outcome.Refines (KindsRelated R) (setLocal l index a) (setLocal l' index b) := by
  cases index with
  | none => exact .panicked
  | some k => exact .ite (by rw [h.length_eq]) (fun _ => .ok (h.set k hab)) (fun _ => .panicked)

theorem transferLocals_related (hrefl : ∀ k, R k k) (h : KindsRelated R l l') (hab : R a b) :
    Outcome.Refines (KindsRelated R) (transferLocals i l a) (transferLocals i l' b) := by
  unfold transferLocals
  refine .ite Iff.rfl (fun _ => setLocal_related h (hrefl _)) (fun _ => ?_)
  refine .ite Iff.rfl (fun _ => setLocal_related h hab) (fun _ => ?_)
  exact .ite Iff.rfl (fun _ => setLocal_related h (hrefl _)) (fun _ => .ok h)

theorem copiedStackValues_related {name : OpName} (h : KindsRelated R l l') :
    Option.Rel (KindsRelated R) (copiedStackValues name l) (copiedStackValues name l') := by
  unfold copiedStackValues
  cases permutation name with
  | none => exact .none
  | some p =>
    simp only [Option.bind_some, h.length_eq]
    split
    case isFalse => exact .none
    case isTrue =>
      refine .some (List.rel_filterMap (R := (· = ·)) (P := R) ?_ (List.forall₂_eq_eq_eq ▸ rfl))
      rintro k _ rfl
      dsimp only
      cases hb : l'[k]? with
      | none => rw [h.getElem?_none hb]; exact .none
      | some b =>
        obtain ⟨a, ha, hab⟩ := h.getElem? hb
        rw [ha]
        exact .some hab

/-- Related pushes make the same catch offset live. -/
def PushRelated (R : SlotKind → SlotKind → Prop) (p q : List SlotKind × Option (Option Nat)) :
    Prop := KindsRelated R p.1 q.1 ∧ p.2 = q.2

theorem transferPush_related {snapshot : CompileSnapshot} (hrefl : ∀ k, R k k)
    (hkey : R (if a = .int32 then .int32 else .tagged) (if b = .int32 then .int32 else .tagged))
    (h : KindsRelated R l l') (hab : R a b) :
    Outcome.Refines (PushRelated R) (transferPush snapshot i l a) (transferPush snapshot i l' b) := by
  have hsame : ∀ kinds live, Outcome.Refines (ε := VerifyError) (PushRelated R)
      (.ok (kinds, live)) (.ok (kinds, live)) := fun kinds _ => .ok ⟨.refl hrefl kinds, rfl⟩
  unfold transferPush
  refine .ite Iff.rfl (fun _ => hsame _ _) (fun _ => ?_)
  refine .ite Iff.rfl (fun _ => ?_) (fun _ => ?_)
  · cases i.targetPc with
    | none => exact fun _ h => absurd h (by simp [okOr, fail, bind, Except.bind])
    | some target => exact hsame _ _
  refine .ite Iff.rfl (fun _ => hsame _ _) (fun _ => ?_)
  refine .ite Iff.rfl (fun _ => hsame _ _) (fun _ => ?_)
  have hcopy : Option.Rel (KindsRelated R) (copiedStackValues i.name l)
      (copiedStackValues i.name l') := copiedStackValues_related h
  generalize copiedStackValues i.name l = values at hcopy ⊢
  generalize copiedStackValues i.name l' = values' at hcopy ⊢
  cases hcopy with
  | some hvalues => exact .ok ⟨hvalues, rfl⟩
  | none =>
    refine .ite Iff.rfl (fun _ => .ok ⟨.cons hkey .nil, rfl⟩) (fun _ => ?_)
    exact .ite Iff.rfl (fun _ => .ok ⟨.cons hab .nil, rfl⟩) (fun _ => hsame _ _)

end Related

/-! ## One step of related states -/

namespace AbstractState.Related

variable {R : SlotKind → SlotKind → Prop} {s t s' t' : AbstractState} {i : Instruction}
  {snapshot : CompileSnapshot}

theorem kept (h : Related R s t) : KindsRelated R (keptSlots i s) (keptSlots i t) := by
  unfold keptSlots
  rw [h.stack.length_eq]
  exact List.forall₂_take _ h.stack

theorem popped (h : Related R s t) : KindsRelated R (poppedSlots i s) (poppedSlots i t) := by
  unfold poppedSlots
  rw [h.stack.length_eq]
  exact List.forall₂_drop _ h.stack

theorem pushState {locals locals' pushed pushed' kept kept' : List SlotKind}
    {catches : List (Nat × Option Nat)} {live : Option (Option Nat)}
    (hlocals : KindsRelated R locals locals') (hkept : KindsRelated R kept kept')
    (hpushed : KindsRelated R pushed pushed') :
    Related R (QuickJit.pushState locals kept catches pushed live)
      (QuickJit.pushState locals' kept' catches pushed' live) where
  locals := hlocals
  stack := List.rel_append hkept hpushed
  catches := by simp only [QuickJit.pushState, hkept.length_eq, hpushed.length_eq]

theorem nipsCatch (h : Related R s t) (hs : NipsCatch s s') (ht : NipsCatch t t') :
    Related R s' t' := by
  obtain ⟨value, index, handler, hvalue, hcatch, -, rfl⟩ := hs
  obtain ⟨value', index', handler', hvalue', hcatch', -, rfl⟩ := ht
  rw [h.catches, hcatch'] at hcatch
  cases hcatch
  obtain ⟨v, hv, hrel⟩ := h.stack.getLast? hvalue'
  rw [hvalue] at hv
  cases hv
  exact ⟨h.locals, List.rel_append (List.forall₂_take _ h.stack.dropLast) (.cons hrel .nil),
    by simp only [h.catches]⟩

/-- The parts of an instruction's effect on related states are related. -/
theorem transferResult (hrefl : ∀ k, R k k)
    (hkey : ∀ {a b}, R a b →
      R (if a = .int32 then .int32 else .tagged) (if b = .int32 then .int32 else .tagged))
    (hnip : i.name = .nipCatch → ∃ s', NipsCatch s s')
    (h : Related R s t) (ht : TransferResult snapshot i t t') :
    ∃ s', TransferResult snapshot i s s' ∧ Related R s' t' := by
  have hlen : (keptSlots i s).length = (keptSlots i t).length := (h.kept (i := i)).length_eq
  cases ht with
  | nipCatch hname ht =>
    obtain ⟨s', hs'⟩ := hnip hname
    exact ⟨s', .nipCatch hname hs', h.nipsCatch hs' ht⟩
  | next hname =>
    exact ⟨_, .next hname, h.locals, List.rel_append h.stack (KindsRelated.refl hrefl _), h.catches⟩
  | load hname hload =>
    obtain ⟨pushed, hpushed, hrel⟩ := transferLoad_related h.locals _ hload
    refine ⟨_, .load hname hpushed, ?_⟩
    rw [hlen, h.catches]
    exact pushState h.locals h.kept hrel
  | push hname hnext hload hlocals hpush =>
    have htop : R (poppedTop i s) (poppedTop i t) := h.popped.lastD hrefl
    obtain ⟨locals, hlocals', hrel⟩ := transferLocals_related hrefl h.locals htop _ hlocals
    obtain ⟨⟨pushed, live⟩, hpush', hpushed, hlive⟩ :=
      transferPush_related hrefl (hkey htop) h.popped htop _ hpush
    dsimp only at hlive hpushed
    subst hlive
    refine ⟨_, .push hname hnext hload hlocals' hpush', ?_⟩
    rw [hlen, h.catches]
    exact pushState hrel h.kept hpushed

end AbstractState.Related

section Step

variable {s t s' t' : AbstractState} {i : Instruction} {snapshot : CompileSnapshot}

theorem transfer_of_related {R : SlotKind → SlotKind → Prop} (h : s.Related R t)
    (ht : transfer snapshot i t = .ok t') (hs : ∃ s', TransferResult snapshot i s s' ∧ s'.Related R t') :
    ∃ s', transfer snapshot i s = .ok s' ∧ s'.Related R t' := by
  obtain ⟨hpop, hsize, -⟩ := transfer_eq_ok.mp ht
  obtain ⟨s', hs', hrel⟩ := hs
  refine ⟨s', transfer_eq_ok.mpr ⟨?_, ?_, hs'⟩, hrel⟩
  · rwa [h.stack.length_eq]
  · rwa [hrel.stack.length_eq]

/-- A covered state steps where the covering one does, to a covered state. -/
theorem transfer_below (h : s.Below t) (ht : transfer snapshot i t = .ok t') :
    ∃ s', transfer snapshot i s = .ok s' ∧ s'.Below t' := by
  have hresult := (transfer_eq_ok.mp ht).2.2
  refine transfer_of_related h ht (h.transferResult SlotKind.Covers.refl ?_ ?_ hresult)
  · intro a b hab
    revert hab
    cases a <;> cases b <;> decide
  · intro hname
    cases hresult with
    | nipCatch _ hnip =>
      obtain ⟨value, index, handler, hvalue, hcatch, hslot, -⟩ := hnip
      obtain ⟨value', hvalue', -⟩ := h.stack.getLast? hvalue
      obtain ⟨kind, hkind, hcov⟩ := h.stack.dropLast.getElem? hslot
      rw [hcov.catchOffset_iff.mpr rfl] at hkind
      exact ⟨_, value', index, handler, hvalue', h.catches ▸ hcatch, hkind, rfl⟩
    | next hname' => rw [hname] at hname'; simp at hname'
    | load hname' _ => rw [hname] at hname'; cases hname'
    | push hne => exact absurd hname hne

/-- Heights and catches after a step depend only on heights and catches. -/
theorem transfer_sameShape (h : s.SameShape t) (hs : transfer snapshot i s = .ok s')
    (ht : transfer snapshot i t = .ok t') : s'.SameShape t' := by
  have hnip : i.name = .nipCatch → ∃ s', NipsCatch s s' := by
    intro hname
    cases (transfer_eq_ok.mp hs).2.2 with
    | nipCatch _ hnip => exact ⟨_, hnip⟩
    | next hname' => rw [hname] at hname'; simp at hname'
    | load hname' _ => rw [hname] at hname'; cases hname'
    | push hne => exact absurd hname hne
  obtain ⟨s'', hs'', hrel⟩ := transfer_of_related h ht
    (h.transferResult (fun _ => trivial) (fun _ => trivial) hnip (transfer_eq_ok.mp ht).2.2)
  rw [hs] at hs''
  cases hs''
  exact hrel

/-- The catch entry an instruction adds on top of `height` slots. -/
def liveEntry (height : Nat) : Option (Option Nat) → List (Nat × Option Nat)
  | some handler => [(height - 1, handler)]
  | none => []

/-- What an instruction does to the stack and the catches: it keeps `kept`
slots, pushes `pushed` on them, and lets the catches below `kept` live on. -/
structure Reshapes (i : Instruction) (s s' : AbstractState) (kept : Nat) (pushed : List SlotKind)
    (live : Option (Option Nat)) : Prop where
  kept_le : kept ≤ s.stack.length
  stack : s'.stack = s.stack.take kept ++ pushed
  catches : s'.catches = (s.catches.filter fun c => decide (c.1 < kept)) ++
    liveEntry (kept + pushed.length) live
  pushed_ne : live.isSome → pushed ≠ []
  handler : ∀ {target}, live = some (some target) →
    i.name = .catchOp ∧ i.targetPc = some target ∧ pushed = [.catchOffset]

theorem transferPush_live {popped pushed : List SlotKind} {top : SlotKind}
    {live : Option (Option Nat)}
    (h : transferPush snapshot i popped top = .ok (pushed, live)) :
    (live.isSome → pushed ≠ []) ∧ ∀ {target}, live = some (some target) →
      i.name = .catchOp ∧ i.targetPc = some target ∧ pushed = [.catchOffset] := by
  unfold transferPush at h
  split at h
  case isTrue => cases h; simp
  case isFalse =>
  split at h
  case isTrue hname =>
    obtain ⟨target, htarget, h⟩ := bind_eq_ok.mp h
    rw [okOr_eq_ok] at htarget
    cases h
    simp [hname, htarget]
  case isFalse =>
  split at h
  case isTrue => cases h; simp
  case isFalse =>
  split at h
  case isTrue => cases h; simp
  case isFalse =>
  split at h
  case h_1 => cases h; simp
  case h_2 =>
  split at h
  case isTrue => cases h; simp
  case isFalse =>
  split at h
  case isTrue => cases h; simp
  case isFalse => cases h; simp

theorem filter_below_dropLast {catches : List (Nat × Option Nat)} {index : Nat}
    {handler : Option Nat}
    (hsorted : catches.Pairwise (fun a b => a.1 < b.1))
    (hlast : catches.getLast? = some (index, handler)) :
    catches.dropLast = catches.filter fun c => decide (c.1 < index) := by
  obtain ⟨init, rfl⟩ := List.getLast?_eq_some_iff.mp hlast
  obtain ⟨-, -, hbelow⟩ := List.pairwise_append.mp hsorted
  have hall : ∀ c ∈ init, decide (c.1 < index) = true := fun c hc => by
    simpa using hbelow c hc (index, handler) (by simp)
  rw [List.dropLast_concat, List.filter_append, List.filter_eq_self.mpr hall]
  simp

theorem transfer_reshapes (hs : s.WellNested) (h : transfer snapshot i s = .ok s') :
    ∃ kept pushed live, Reshapes i s s' kept pushed live := by
  have hpushState : ∀ {locals pushed : List SlotKind} {live : Option (Option Nat)},
      (live.isSome → pushed ≠ []) →
      (∀ {target}, live = some (some target) →
        i.name = .catchOp ∧ i.targetPc = some target ∧ pushed = [.catchOffset]) →
      Reshapes i s (pushState locals (keptSlots i s)
        (trimCatches (keptSlots i s).length s.catches) pushed live)
        (keptSlots i s).length pushed live := by
    intro locals pushed live hne hhandler
    have hlen : (keptSlots i s).length = s.stack.length - effectivePop i := by
      simp only [keptSlots, List.length_take]
      omega
    refine ⟨by omega, ?_, ?_, hne, hhandler⟩
    · rw [hlen]
      rfl
    · rw [← trimCatches_eq_filter hs.sorted]
      cases live <;> simp [pushState, liveEntry]
  cases (transfer_eq_ok.mp h).2.2 with
  | nipCatch _ hnip =>
    obtain ⟨value, index, handler, hvalue, hcatch, hslot, rfl⟩ := hnip
    have hindex : index < s.stack.dropLast.length := (List.getElem?_eq_some_iff.mp hslot).1
    rw [List.length_dropLast] at hindex
    refine ⟨index, [value], none, by omega, ?_, ?_, by simp, by simp⟩
    · dsimp only
      rw [List.dropLast_eq_take, List.take_take, Nat.min_eq_left (by omega)]
    · simp only [liveEntry, List.append_nil]
      exact filter_below_dropLast hs.sorted hcatch
  | next _ =>
    refine ⟨s.stack.length, [.tagged, .tagged], none, le_rfl, by simp, ?_, by simp, by simp⟩
    have hall : ∀ c ∈ s.catches, decide (c.1 < s.stack.length) = true := fun c hc => by
      simpa using hs.below c hc
    simp [liveEntry, List.filter_eq_self.mpr hall]
  | load _ _ => exact ⟨_, _, _, hpushState (by simp) (by simp)⟩
  | push _ _ _ _ hpush =>
    obtain ⟨hne, hhandler⟩ := transferPush_live hpush
    exact ⟨_, _, _, hpushState hne hhandler⟩

theorem transfer_stack_le (h : transfer snapshot i s = .ok s') :
    s'.stack.length ≤ snapshot.stackSize.toNat := (transfer_eq_ok.mp h).2.1

/-- Catch offsets stay well nested. -/
theorem Reshapes.wellNested {kept : Nat} {pushed : List SlotKind} {live : Option (Option Nat)}
    (hs : s.WellNested) (h : Reshapes i s s' kept pushed live) : s'.WellNested := by
  have hlen : s'.stack.length = kept + pushed.length := by
    rw [h.stack, List.length_append, List.length_take, Nat.min_eq_left h.kept_le]
  have hpos : ∀ handler, live = some handler → 0 < pushed.length := fun handler hlive =>
    List.length_pos_iff.mpr (h.pushed_ne (by simp [hlive]))
  have hnew : ∀ c ∈ liveEntry (kept + pushed.length) live,
      kept ≤ c.1 ∧ c.1 < kept + pushed.length := by
    intro c hc
    cases live with
    | none => cases hc
    | some handler =>
      have := hpos handler rfl
      rw [liveEntry, List.mem_singleton] at hc
      subst hc
      dsimp only
      omega
  constructor
  · rw [h.catches]
    refine List.pairwise_append.mpr ⟨hs.sorted.filter _, ?_, fun a ha b hb => ?_⟩
    · cases live <;> simp [liveEntry]
    · have ha := (List.mem_filter.mp ha).2
      have hb := (hnew b hb).1
      simp only [decide_eq_true_eq] at ha
      omega
  · intro c hc
    rw [h.catches, List.mem_append] at hc
    rw [hlen]
    rcases hc with hc | hc
    · have := (List.mem_filter.mp hc).2
      simp only [decide_eq_true_eq] at this
      omega
    · exact (hnew c hc).2

end Step

end QuickJit
