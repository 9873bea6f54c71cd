import QuickJit.Bytecode.Transfer

/-
  What the joins of the worklist do, said once.

  A join keeps the operand stack and the catches of the entry it joins into and
  widens its locals until they cover the incoming ones (`Joins`). `Grows` is
  what a whole stretch of the worklist does to the block entries: entries only
  widen, and every entry that is new or has changed is in the queue.
-/

namespace QuickJit

open OrdMap Outcome

variable {expected : AbstractState} {joined : AbstractState × Bool} {actual : List SlotKind}
  {pc : Nat}

/-- `t` is `s` with some local proofs dropped. -/
structure Widens (s t : AbstractState) : Prop where
  stack : t.stack = s.stack
  catches : t.catches = s.catches
  locals : KindsRelated (fun a b => SlotKind.Covers b a) s.locals t.locals

namespace Widens

variable {s t u : AbstractState}

theorem refl (s : AbstractState) : Widens s s :=
  ⟨rfl, rfl, KindsRelated.covers_refl _⟩

theorem trans (h₁ : Widens s t) (h₂ : Widens t u) : Widens s u :=
  ⟨h₂.stack.trans h₁.stack, h₂.catches.trans h₁.catches,
    h₁.locals.covers_trans h₂.locals⟩

theorem below (h : Widens s t) : s.Below t :=
  ⟨h.locals, h.stack ▸ KindsRelated.covers_refl _, h.catches.symm⟩

theorem sameShape (h : Widens s t) : s.SameShape t := h.below.sameShape

end Widens

/-! ## Locals -/

/-- `joined` covers both lists, and is the first unless `changed`. -/
structure JoinsLocals (expected actual joined : List SlotKind) (changed : Bool) : Prop where
  left : KindsRelated (fun a b => SlotKind.Covers b a) expected joined
  right : KindsRelated (fun a b => SlotKind.Covers b a) actual joined
  same : changed = false → joined = expected

theorem joinKind_covers {e a joined : SlotKind} (h : joinKind e a = some joined) :
    SlotKind.Covers joined e ∧ SlotKind.Covers joined a := by
  cases e <;> cases a <;> simp only [joinKind, reduceCtorEq, Option.some.injEq] at h <;>
    subst h <;> decide

theorem mergeLocals_joins :
    ∀ {slot : Nat} {es as joined : List SlotKind} {changed : Bool},
      es.length = as.length → mergeLocals pc slot es as = .ok (joined, changed) →
      JoinsLocals es as joined changed
  | _, [], [], _, _, _, h => by
    cases h
    exact ⟨.nil, .nil, fun _ => rfl⟩
  | slot, e :: es, a :: as, _, _, hlen, h => by
    simp only [mergeLocals, bind_eq_ok, Prod.exists] at h
    obtain ⟨joined, hjoined, rest, changed, hrest, hresult⟩ := h
    cases hresult
    have ih := mergeLocals_joins (by simpa using hlen) hrest
    have hcov : SlotKind.Covers joined e ∧ SlotKind.Covers joined a := by
      unfold mergeKind at hjoined
      split at hjoined
      case isTrue heq =>
        cases hjoined
        exact ⟨.refl _, heq ▸ .refl _⟩
      case isFalse => exact joinKind_covers (okOr_eq_ok.mp hjoined)
    refine ⟨.cons hcov.1 ih.left, .cons hcov.2 ih.right, fun hsame => ?_⟩
    simp only [Bool.or_eq_false_iff, decide_eq_false_iff_not, not_not] at hsame
    rw [hsame.1, ih.same hsame.2]

theorem widenLocals_joins :
    ∀ {es as joined : List SlotKind} {changed : Bool},
      es.length = as.length → widenLocals pc es as = .ok (joined, changed) →
      JoinsLocals es as joined changed
  | [], [], _, _, _, h => by
    cases h
    exact ⟨.nil, .nil, fun _ => rfl⟩
  | e :: es, a :: as, _, _, hlen, h => by
    unfold widenLocals at h
    split at h
    case isTrue heq =>
      simp only [bind_eq_ok, Prod.exists] at h
      obtain ⟨rest, changed, hrest, hresult⟩ := h
      cases hresult
      have ih := widenLocals_joins (by simpa using hlen) hrest
      exact ⟨.cons (.refl _) ih.left, .cons (heq ▸ .refl _) ih.right,
        fun hsame => by rw [ih.same hsame]⟩
    case isFalse hne =>
      rw [ite_reject_eq_ok] at h
      obtain ⟨hcatch, h⟩ := h
      simp only [bind_eq_ok, Prod.exists] at h
      obtain ⟨rest, changed, hrest, hresult⟩ := h
      cases hresult
      have ih := widenLocals_joins (by simpa using hlen) hrest
      rw [not_or] at hcatch
      refine ⟨.cons (.inr ⟨rfl, hcatch.1⟩) ih.left, .cons (.inr ⟨rfl, hcatch.2⟩) ih.right,
        fun hsame => ?_⟩
      simp only [Bool.or_eq_false_iff, decide_eq_false_iff_not, not_not] at hsame
      rw [hsame.1, ih.same hsame.2]

/-! ## States -/

/-- `joined` is the entry `expected` joined with locals `actual`. -/
structure Joins (expected : AbstractState) (actual : List SlotKind)
    (joined : AbstractState × Bool) : Prop where
  widens : Widens expected joined.1
  covers : KindsRelated (fun a b => SlotKind.Covers b a) actual joined.1.locals
  same : joined.2 = false → joined.1 = expected

theorem JoinsLocals.joins {locals : List SlotKind} {changed : Bool}
    (h : JoinsLocals expected.locals actual locals changed) :
    Joins expected actual ({ expected with locals }, changed) :=
  ⟨⟨rfl, rfl, h.left⟩, h.right, fun hsame => by rw [h.same hsame]⟩

theorem joinHandlerLocals_joins (h : joinHandlerLocals pc expected actual = .ok joined) :
    Joins expected actual joined := by
  unfold joinHandlerLocals at h
  rw [ite_reject_eq_ok, not_not] at h
  obtain ⟨hlen, h⟩ := h
  simp only [bind_eq_ok, Prod.exists] at h
  obtain ⟨locals, changed, hlocals, hjoined⟩ := h
  cases hjoined
  exact (widenLocals_joins hlen hlocals).joins

theorem firstMismatch_none : ∀ {k : Nat} {es as : List SlotKind}, es.length = as.length →
    firstMismatch k es as = none → es = as
  | _, [], [], _, _ => rfl
  | k, e :: es, a :: as, hlen, h => by
    unfold firstMismatch at h
    split at h
    case isTrue heq => rw [heq, firstMismatch_none (by simpa using hlen) h]
    case isFalse => cases h

theorem mergeState_joins {actual : AbstractState}
    (hlocals : expected.locals.length = actual.locals.length)
    (h : mergeState pc expected actual = .ok joined) :
    Joins expected actual.locals joined ∧ expected.stack = actual.stack ∧
      expected.catches = actual.catches := by
  unfold mergeState at h
  rw [ite_reject_eq_ok, ite_reject_eq_ok, not_not, not_not] at h
  obtain ⟨hlen, hcatches, h⟩ := h
  split at h
  · cases h
  case h_2 hstack =>
    simp only [bind_eq_ok, Prod.exists] at h
    obtain ⟨locals, changed, hmerge, hjoined⟩ := h
    cases hjoined
    exact ⟨(mergeLocals_joins hlocals hmerge).joins, firstMismatch_none hlen hstack, hcatches⟩

/-! ## Entries -/

/-- What happens to the block entries: they widen, entries that satisfy `New`
may be added, and what is new or changed is queued. -/
structure Grows (New : AbstractState → Prop) (p p' : Proving) : Prop where
  entries : ∀ {pc E}, p.entries.get? pc = some E →
    ∃ E', p'.entries.get? pc = some E' ∧ Widens E E'
  source : ∀ {pc E'}, p'.entries.get? pc = some E' →
    (∃ E, p.entries.get? pc = some E ∧ Widens E E') ∨ New E'
  queue : ∀ {pc}, pc ∈ p.queue → pc ∈ p'.queue
  changed : ∀ {pc E'}, p'.entries.get? pc = some E' →
    p.entries.get? pc = some E' ∨ pc ∈ p'.queue

namespace Grows

variable {New : AbstractState → Prop} {p p' p'' : Proving}

theorem of_eq (hentries : p'.entries = p.entries) (hqueue : p'.queue = p.queue) :
    Grows New p p' where
  entries h := ⟨_, hentries ▸ h, .refl _⟩
  source h := .inl ⟨_, hentries ▸ h, .refl _⟩
  queue h := hqueue ▸ h
  changed h := .inl (hentries ▸ h)

theorem refl : Grows New p p := of_eq rfl rfl

theorem trans (hNew : ∀ {E E'}, New E → Widens E E' → New E') (h₁ : Grows New p p')
    (h₂ : Grows New p' p'') : Grows New p p'' where
  entries h := by
    obtain ⟨E', h', hw⟩ := h₁.entries h
    obtain ⟨E'', h'', hw'⟩ := h₂.entries h'
    exact ⟨E'', h'', hw.trans hw'⟩
  source h := by
    rcases h₂.source h with ⟨E', h', hw'⟩ | hnew
    · rcases h₁.source h' with ⟨E, h, hw⟩ | hnew
      · exact .inl ⟨E, h, hw.trans hw'⟩
      · exact .inr (hNew hnew hw')
    · exact .inr hnew
  queue h := h₂.queue (h₁.queue h)
  changed h := by
    rcases h₂.changed h with h | h
    · exact (h₁.changed h).imp_right h₂.queue
    · exact .inr h

/-- Charging the work budget touches no entry. -/
theorem charged {used : Nat} (h : Grows New { p with used } p') : Grows New p p' :=
  ⟨h.entries, h.source, h.queue, h.changed⟩

theorem mono {New' : AbstractState → Prop} (hNew : ∀ {E}, New E → New' E) (h : Grows New p p') :
    Grows New' p p' where
  entries := h.entries
  source hE := (h.source hE).imp_right hNew
  queue := h.queue
  changed := h.changed

end Grows

theorem updateEntry_grows {New : AbstractState → Prop} {p : Proving}
    (hentry : p.entries.get? pc = some expected) (hjoins : Joins expected actual joined) :
    Grows New p (updateEntry p pc joined) where
  entries {pc' E} h := by
    by_cases hpc : pc = pc'
    · subst hpc
      rw [hentry] at h
      cases h
      exact ⟨joined.1, get?_insert_self .., hjoins.widens⟩
    · exact ⟨E, by rw [updateEntry, get?_insert_ne _ _ hpc]; exact h, .refl _⟩
  source {pc' E'} h := by
    rcases get?_insert_cases h with ⟨rfl, rfl⟩ | h
    · exact .inl ⟨expected, hentry, hjoins.widens⟩
    · exact .inl ⟨E', h, .refl _⟩
  queue {pc'} h := by
    dsimp only [updateEntry]
    split
    · exact List.mem_append_left _ h
    · exact h
  changed {pc' E'} h := by
    rcases get?_insert_cases h with ⟨rfl, rfl⟩ | h
    · cases hchanged : joined.2 with
      | false => exact .inl (hjoins.same hchanged ▸ hentry)
      | true => exact .inr (by simp [updateEntry, hchanged])
    · exact .inl h

theorem newEntry_grows {New : AbstractState → Prop} {p : Proving} {s : AbstractState}
    (hentry : p.entries.get? pc = none) (hnew : New s) : Grows New p (newEntry p pc s) where
  entries {pc' E} h := by
    have hpc : pc ≠ pc' := by
      rintro rfl
      rw [hentry] at h
      cases h
    exact ⟨E, by rw [newEntry, get?_insert_ne _ _ hpc]; exact h, .refl _⟩
  source {pc' E'} h := by
    rcases get?_insert_cases h with ⟨rfl, rfl⟩ | h
    · exact .inr hnew
    · exact .inl ⟨E', h, .refl _⟩
  queue h := List.mem_append_left _ h
  changed {pc' E'} h := by
    rcases get?_insert_cases h with ⟨rfl, -⟩ | h
    · exact .inr (by simp [newEntry])
    · exact .inl h

end QuickJit
