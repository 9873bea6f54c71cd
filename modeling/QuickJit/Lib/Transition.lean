import Mathlib

/-
  Runs of a state machine given by a step function.

  A run applies a list of operations one after the other. `runs_inv` is the
  rule of an invariant: it holds after every run if each step keeps it.
  `Meets` says that each operation of a run satisfies a condition in the state
  it is applied to, and `runs_inv_of_meets` is the rule for invariants that
  only such steps keep.
-/

namespace QuickJit

universe u v

section

variable {σ : Type u} {ε : Type v} {step : σ → ε → σ} {P : σ → Prop} {C : σ → ε → Prop}

/-- The state after some operations. -/
def runs (step : σ → ε → σ) (s : σ) (ops : List ε) : σ := ops.foldl step s

@[simp] theorem runs_nil (s : σ) : runs step s [] = s := rfl

@[simp] theorem runs_cons (s : σ) (op : ε) (ops : List ε) :
    runs step s (op :: ops) = runs step (step s op) ops := rfl

theorem runs_append (s : σ) (ops ops' : List ε) :
    runs step s (ops ++ ops') = runs step (runs step s ops) ops' := List.foldl_append

/-- The rule of an invariant. -/
theorem runs_inv (hstep : ∀ s op, P s → P (step s op)) {s : σ} (hs : P s) (ops : List ε) :
    P (runs step s ops) := by
  induction ops generalizing s with
  | nil => exact hs
  | cons op ops ih => exact ih (hstep s op hs)

/-- What no step changes, no run changes. -/
theorem runs_fixed {α : Type*} (f : σ → α) (hf : ∀ s op, f (step s op) = f s) (s : σ)
    (ops : List ε) : f (runs step s ops) = f s :=
  runs_inv (P := fun s' => f s' = f s) (fun s' op h => (hf s' op).trans h) rfl ops

/-- Each operation satisfies `C` where it is applied. -/
def Meets (step : σ → ε → σ) (C : σ → ε → Prop) : σ → List ε → Prop
  | _, [] => True
  | s, op :: ops => C s op ∧ Meets step C (step s op) ops

theorem meets_append {s : σ} {ops ops' : List ε} :
    Meets step C s (ops ++ ops') ↔ Meets step C s ops ∧ Meets step C (runs step s ops) ops' := by
  induction ops generalizing s with
  | nil => simp [Meets]
  | cons op ops ih => simp [Meets, ih, and_assoc]

/-- The rule of an invariant of the runs that meet a condition. -/
theorem runs_inv_of_meets (hstep : ∀ s op, C s op → P s → P (step s op)) {s : σ} (hs : P s)
    {ops : List ε} (hops : Meets step C s ops) : P (runs step s ops) := by
  induction ops generalizing s with
  | nil => exact hs
  | cons op ops ih => exact ih (hstep s op hops.1 hs) hops.2

end

end QuickJit
