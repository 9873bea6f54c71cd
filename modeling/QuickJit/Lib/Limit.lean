import QuickJit.Lib.Outcome

/-
  Computations under a limit.

  `x limit` is a fallible computation that counts what it uses and stops when
  the count passes `limit`; `m` reads the count off its result. `Limited`
  says that the limit has no other effect: a result is the result under every
  limit that covers its count. There is one rule for each way of composing
  computations, so the fact is proved along a program's own structure.
-/

namespace QuickJit

universe u

/-- The count only grows from `start`, not past the limit, and a result does not
depend on the limit as long as its count is within it. -/
def Limited {ε α : Type u} (start : Nat) (m : α → Nat) (x : Nat → Outcome ε α) : Prop :=
  ∀ limit a, x limit = .ok a → start ≤ m a ∧ m a ≤ max start limit ∧
    ∀ limit', m a ≤ limit' → x limit' = .ok a

namespace Limited

variable {ε α β γ σ : Type u} {start : Nat} {m : α → Nat} {m' : β → Nat}

theorem pure {a : α} (h : m a = start) :
    Limited start m fun _ => (.ok a : Outcome ε α) := by
  rintro limit b ⟨⟩
  exact ⟨Nat.le_of_eq h.symm, h ▸ Nat.le_max_left _ _, fun _ _ => rfl⟩

theorem fail (e : Stop ε) : Limited start m fun _ => (.error e : Outcome ε α) := by
  rintro limit b ⟨⟩

theorem bind {x : Nat → Outcome ε α} {f : Nat → α → Outcome ε β} (hx : Limited start m x)
    (hf : ∀ a, Limited (m a) m' fun limit => f limit a) :
    Limited start m' fun limit => x limit >>= f limit := by
  intro limit b h
  obtain ⟨a, ha, hb⟩ := Outcome.bind_eq_ok.mp h
  obtain ⟨hstart, hwithin, hsame⟩ := hx limit a ha
  obtain ⟨hused, hwithin', hsame'⟩ := hf a limit b hb
  refine ⟨hstart.trans hused, by omega, fun limit' hlimit => Outcome.bind_eq_ok.mpr ⟨a, ?_, ?_⟩⟩
  · exact hsame limit' (hused.trans hlimit)
  · exact hsame' limit' hlimit

/-- A computation that counts nothing comes first. -/
theorem after {x : Outcome ε γ} {f : Nat → γ → Outcome ε β}
    (hf : ∀ c, x = .ok c → Limited start m' fun limit => f limit c) :
    Limited start m' fun limit => x >>= f limit := by
  intro limit b h
  obtain ⟨c, hc, hb⟩ := Outcome.bind_eq_ok.mp h
  obtain ⟨hstart, hwithin, hsame⟩ := hf c hc limit b hb
  exact ⟨hstart, hwithin,
    fun limit' hlimit => Outcome.bind_eq_ok.mpr ⟨c, hc, hsame limit' hlimit⟩⟩

theorem ite {p : Prop} [Decidable p] {x y : Nat → Outcome ε α} (hx : p → Limited start m x)
    (hy : ¬ p → Limited start m y) :
    Limited start m fun limit => if p then x limit else y limit := by
  by_cases hp : p
  · simpa only [if_pos hp] using hx hp
  · simpa only [if_neg hp] using hy hp

theorem foldlM {m : σ → Nat} {f : Nat → σ → γ → Outcome ε σ}
    (hf : ∀ s c, Limited (m s) m fun limit => f limit s c) :
    ∀ (l : List γ) (s : σ), Limited (m s) m fun limit => l.foldlM (f limit) s
  | [], s => by
    simp only [List.foldlM_nil]
    exact pure rfl
  | c :: l, s => by
    simp only [List.foldlM_cons]
    exact (hf s c).bind fun s' => foldlM hf l s'

theorem iterate {m : σ → Nat} {step : Nat → σ → Outcome ε (Option σ)}
    (hstep : ∀ s, Limited (m s) (fun o => m (o.getD s)) fun limit => step limit s) :
    ∀ (fuel : Nat) (s : σ), Limited (m s) m fun limit => Outcome.iterate (step limit) fuel s
  | 0, _ => fail _
  | fuel + 1, s => by
    intro limit r h
    simp only [Outcome.iterate] at h ⊢
    split at h
    · cases h
    case h_2 hend =>
      cases h
      obtain ⟨-, -, hsame⟩ := hstep s limit none hend
      refine ⟨Nat.le_refl _, Nat.le_max_left _ _, fun limit' hlimit => ?_⟩
      have hend' : step limit' s = .ok none := hsame limit' hlimit
      rw [hend']
    case h_3 s' hnext =>
      obtain ⟨hused, hwithin, hsame⟩ := hstep s limit (some s') hnext
      obtain ⟨hused', hwithin', hsame'⟩ := iterate hstep fuel s' limit r h
      dsimp only [Option.getD_some] at hused hwithin hsame
      refine ⟨hused.trans hused', by omega, fun limit' hlimit => ?_⟩
      have hnext' : step limit' s = .ok (some s') := hsame limit' (hused'.trans hlimit)
      rw [hnext']
      exact hsame' limit' hlimit

end Limited

end QuickJit
