import Mathlib

/-
  Fallible computations and the rules their loops are reasoned with.

  A Rust function that returns `Result` can also panic (an `expect`, an index
  out of range), and a `while` loop is run here with fuel. `Outcome` keeps the
  three ways of stopping apart, so a result that is `ok` is a result of the
  program: no default stands in for a panic and none for a loop cut short.

  `foldlM_inv` is the rule of a `for` loop over a list: an invariant that may
  speak about the part of the list already seen. `iterate_inv` is the rule of a
  `while` loop: the invariant holds at the end, and the loop has left because
  its own test said so.
-/

namespace QuickJit

universe u v

/-- Why a computation stopped without a result. -/
inductive Stop (ε : Type u) where
  | error (e : ε)
  | panicked
  | outOfFuel
  deriving DecidableEq, Repr

/-- The outcome of a fallible function with errors `ε`. -/
abbrev Outcome (ε : Type u) (α : Type u) := Except (Stop ε) α

namespace Outcome

variable {ε α β σ : Type u}
variable {l : List β} {o : Option α} {x : Outcome ε α} {a : α} {f : α → Outcome ε β} {e : ε} {s : σ}
  {step : σ → Outcome ε (Option σ)}

/-- Return an error. -/
def fail (e : ε) : Outcome ε α := .error (.error e)

def panicked : Outcome ε α := .error .panicked

/-- The value of an option that the source unwraps. -/
def expect : Option α → Outcome ε α
  | some a => .ok a
  | none => panicked

/-- The value of an option that the source turns into an error. -/
def okOr (e : ε) : Option α → Outcome ε α
  | some a => .ok a
  | none => fail e

theorem bind_eq_ok {b : β} :
    x >>= f = .ok b ↔ ∃ a, x = .ok a ∧ f a = .ok b := by
  cases x with
  | error e => simp [bind, Except.bind]
  | ok a => simp [bind, Except.bind]

@[simp] theorem fail_ne_ok : fail e ≠ .ok a := by simp [fail]

@[simp] theorem panicked_ne_ok : (panicked : Outcome ε α) ≠ .ok a := by simp [panicked]

theorem pure_eq_ok {b : α} : (pure a : Outcome ε α) = .ok b ↔ a = b := by
  simp [pure, Except.pure]

@[simp] theorem expect_eq_ok :
    (expect o : Outcome ε α) = .ok a ↔ o = some a := by
  cases o <;> simp [expect]

@[simp] theorem okOr_eq_ok :
    okOr e o = .ok a ↔ o = some a := by
  cases o <;> simp [okOr]

theorem ite_fail_eq_ok {c : Prop} [Decidable c] :
    (if c then fail e else x) = .ok a ↔ ¬c ∧ x = .ok a := by
  by_cases h : c <;> simp [h]

/-- The result of a computation that succeeds. -/
def value {x : Outcome ε α} (h : x.isOk = true) : α :=
  match x, h with
  | .ok a, _ => a

theorem eq_ok_value (h : x.isOk = true) : x = .ok (value h) := by
  cases x with
  | error => cases h
  | ok => rfl

/-- Whenever `x'` succeeds so does `x`, with a related result. -/
def Refines (P : α → β → Prop) (x : Outcome ε α) (x' : Outcome ε β) : Prop :=
  ∀ b, x' = .ok b → ∃ a, x = .ok a ∧ P a b

namespace Refines

variable {P : α → β → Prop} {x y : Outcome ε α} {x' y' : Outcome ε β}

theorem ok {b : β} (h : P a b) : Refines P (.ok a : Outcome ε α) (.ok b) := by
  rintro _ ⟨⟩
  exact ⟨a, rfl, h⟩

theorem panicked : Refines P x (panicked : Outcome ε β) := fun _ h => absurd h panicked_ne_ok

theorem ite {c c' : Prop} [Decidable c] [Decidable c'] (hc : c ↔ c') (hx : c' → Refines P x x')
    (hy : ¬c' → Refines P y y') :
    Refines P (if c then x else y) (if c' then x' else y') := by
  by_cases h : c'
  · simpa only [h, hc, if_true] using hx h
  · simpa only [h, hc, if_false] using hy h

end Refines

/-- The rule of a `for` loop: an invariant of the elements seen so far. -/
theorem foldlM_inv {f : σ → β → Outcome ε σ} {P : List β → σ → Prop} {r : σ}
    (h : l.foldlM f s = .ok r) (h0 : P [] s)
    (hstep : ∀ pre b post s s', l = pre ++ b :: post → P pre s → f s b = .ok s' →
      P (pre ++ [b]) s') :
    P l r := by
  suffices hgen : ∀ (rest pre : List β) (s : σ), l = pre ++ rest → P pre s →
      rest.foldlM f s = .ok r → P l r from hgen l [] s rfl h0 h
  intro rest
  induction rest with
  | nil =>
    intro pre s hl hP hr
    rw [List.foldlM_nil, pure_eq_ok] at hr
    simpa [hl, ← hr] using hP
  | cons b rest ih =>
    intro pre s hl hP hr
    rw [List.foldlM_cons, bind_eq_ok] at hr
    obtain ⟨s', hs', hr⟩ := hr
    exact ih (pre ++ [b]) s' (by simp [hl]) (hstep pre b rest s s' hl hP hs') hr

/-- The `for` rule for an invariant that does not look at the list. -/
theorem foldlM_preserves {f : σ → β → Outcome ε σ} {P : σ → Prop} {r : σ} (h : l.foldlM f s = .ok r)
    (h0 : P s) (hstep : ∀ b ∈ l, ∀ s s', P s → f s b = .ok s' → P s') : P r :=
  foldlM_inv (P := fun _ s => P s) h h0
    (fun pre b post s s' hl => hstep b (by simp [hl]) s s')

/-- A `for` loop that fails, fails at an element its invariant holds up to. -/
theorem foldlM_error {f : σ → β → Outcome ε σ} {P : List β → σ → Prop} {e : Stop ε}
    (h : l.foldlM f s = .error e) (h0 : P [] s)
    (hstep : ∀ pre b post s s', l = pre ++ b :: post → P pre s → f s b = .ok s' →
      P (pre ++ [b]) s') :
    ∃ pre b post s', l = pre ++ b :: post ∧ P pre s' ∧ f s' b = .error e := by
  suffices hgen : ∀ (rest pre : List β) (s : σ), l = pre ++ rest → P pre s →
      rest.foldlM f s = .error e → ∃ pre b post s', l = pre ++ b :: post ∧ P pre s' ∧
        f s' b = .error e from hgen l [] s rfl h0 h
  intro rest
  induction rest with
  | nil =>
    intro pre s _ _ hr
    cases hr
  | cons b rest ih =>
    intro pre s hl hP hr
    rw [List.foldlM_cons] at hr
    cases hs : f s b with
    | error e' =>
      rw [hs] at hr
      cases hr
      exact ⟨pre, b, rest, s, hl, hP, hs⟩
    | ok s' =>
      rw [hs] at hr
      exact ih (pre ++ [b]) s' (by simp [hl]) (hstep pre b rest s s' hl hP hs) hr

/-- A `while` loop: `step` is one turn, `none` when the loop's test fails. -/
def iterate (step : σ → Outcome ε (Option σ)) : Nat → σ → Outcome ε σ
  | 0, _ => .error .outOfFuel
  | fuel + 1, s =>
    match step s with
    | .error e => .error e
    | .ok none => .ok s
    | .ok (some s') => iterate step fuel s'

/-- The rule of a `while` loop. -/
theorem iterate_inv {P : σ → Prop} (hstep : ∀ s s', P s → step s = .ok (some s') → P s') :
    ∀ {fuel : Nat} {s r : σ}, iterate step fuel s = .ok r → P s → P r ∧ step r = .ok none
  | fuel + 1, s, r, h, hs => by
    unfold iterate at h
    split at h
    case h_1 => cases h
    case h_2 hnone => cases h; exact ⟨hs, hnone⟩
    case h_3 s' hsome => exact iterate_inv hstep h (hstep s s' hs hsome)

/-- A `while` loop that fails, fails in a turn at a state its invariant holds of, or
has run out of fuel. -/
theorem iterate_error {P : σ → Prop} (hstep : ∀ s s', P s → step s = .ok (some s') → P s') :
    ∀ {fuel : Nat} {s : σ} {e : Stop ε}, iterate step fuel s = .error e → P s →
      e = .outOfFuel ∨ ∃ s', P s' ∧ step s' = .error e
  | 0, _, _, h, _ => .inl (Except.error.inj h).symm
  | fuel + 1, s, e, h, hs => by
    unfold iterate at h
    split at h
    case h_1 e' he =>
      cases h
      exact .inr ⟨s, hs, he⟩
    case h_2 => cases h
    case h_3 s' hsome => exact iterate_error hstep h (hstep s s' hs hsome)

theorem okOr_ne_outOfFuel : okOr e o ≠ .error .outOfFuel := by
  cases o <;> simp [okOr, fail]

theorem bind_ne_outOfFuel (hx : x ≠ .error .outOfFuel) (hf : ∀ a, f a ≠ .error .outOfFuel) :
    x >>= f ≠ .error .outOfFuel := by
  cases x with
  | error e => exact fun h => hx (congrArg Except.error (Except.error.inj h))
  | ok a => exact hf a

theorem expect_ne_outOfFuel : (expect o : Outcome ε α) ≠ .error .outOfFuel := by
  cases o <;> simp [expect, panicked]

theorem foldlM_ne_outOfFuel {f : σ → β → Outcome ε σ} (hf : ∀ s b, f s b ≠ .error .outOfFuel) :
    ∀ (l : List β) (s : σ), l.foldlM f s ≠ .error .outOfFuel
  | [], _ => nofun
  | b :: l, s => by
    rw [List.foldlM_cons]
    exact bind_ne_outOfFuel (hf s b) fun s' => foldlM_ne_outOfFuel hf l s'

/-- A measure that every turn lowers bounds the fuel of a `while` loop. -/
theorem iterate_ne_outOfFuel {m : σ → Nat} (hstop : ∀ s, step s ≠ .error .outOfFuel)
    (hstep : ∀ s s', step s = .ok (some s') → m s' < m s) :
    ∀ {fuel : Nat} {s : σ}, m s < fuel → iterate step fuel s ≠ .error .outOfFuel
  | fuel + 1, s, hlt, h => by
    unfold iterate at h
    split at h
    case h_1 e he =>
      cases h
      exact hstop s he
    case h_2 => cases h
    case h_3 s' hsome =>
      have hless := hstep s s' hsome
      exact iterate_ne_outOfFuel hstop hstep (by omega) h

/-- A loop that collects results has one for every element. -/
theorem mapM_eq_ok : ∀ {l : List α} {l' : List β},
    l.mapM f = .ok l' ↔ List.Forall₂ (fun a b => f a = .ok b) l l'
  | [], l' => by
    rw [List.mapM_nil, pure_eq_ok]
    exact ⟨fun h => h ▸ .nil, fun h => by cases h; rfl⟩
  | a :: l, l' => by
    rw [List.mapM_cons, bind_eq_ok]
    simp only [bind_eq_ok, pure_eq_ok, mapM_eq_ok (l := l)]
    constructor
    · rintro ⟨b, hb, bs, hbs, rfl⟩
      exact .cons hb hbs
    · rintro (_ | ⟨hb, hbs⟩)
      exact ⟨_, hb, _, hbs, rfl⟩

theorem mapM_isOk : ∀ {l : List α},
    (∃ l', l.mapM f = .ok l') ↔ ∀ a ∈ l, ∃ b, f a = .ok b
  | [] => ⟨fun _ _ ha => absurd ha List.not_mem_nil, fun _ => ⟨[], rfl⟩⟩
  | a :: l => by
    rw [List.forall_mem_cons, ← mapM_isOk (l := l)]
    simp only [mapM_eq_ok]
    constructor
    · rintro ⟨_, _ | ⟨hb, hbs⟩⟩
      exact ⟨⟨_, hb⟩, _, hbs⟩
    · rintro ⟨⟨b, hb⟩, bs, hbs⟩
      exact ⟨b :: bs, .cons hb hbs⟩

end Outcome

end QuickJit
