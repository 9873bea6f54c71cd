import Mathlib

/-
  Bounded chaotic iteration over an indexed equation system.

  Facts about `size` unknowns are improved one unknown after the other, each
  from the facts as they are at that moment. Every visit is paid for; when the
  budget does not cover one, the iteration gives up. A pass that changes nothing
  ends the iteration, unless some unknown still has no evidence (`bottom`): then
  all of those are set to `top` and the iteration goes on.
-/

namespace QuickJit

/-- An equation system over facts `L`; `next` gives the new fact of an unknown,
its old one already joined in. -/
structure Sweep (L : Type) where
  size : Nat
  bottom : L
  top : L
  cost : Nat → Nat
  fillCost : Nat
  next : List L → Nat → L

namespace Sweep

variable {L : Type} [DecidableEq L]

/-- One pass over some unknowns: facts, remaining work and whether a fact
changed. -/
def pass (s : Sweep L) : List Nat → List L × Nat × Bool → Option (List L × Nat × Bool)
  | [], state => some state
  | i :: rest, (facts, work, changed) =>
    if work < s.cost i then none
    else s.pass rest (facts.set i (s.next facts i), work - s.cost i,
      changed || decide (facts[i]? ≠ some (s.next facts i)))

/-- Iterate; `fuel` is used up one per pass. -/
def solve (s : Sweep L) : Nat → List L → Nat → Option (List L × Nat)
  | 0, _, _ => none
  | fuel + 1, facts, work =>
    match s.pass (List.range s.size) (facts, work, false) with
    | none => none
    | some (facts, work, changed) =>
      if changed then s.solve fuel facts work
      else if s.bottom ∈ facts then
        if work < s.fillCost then none
        else s.solve fuel (facts.map fun fact => if fact = s.bottom then s.top else fact)
          (work - s.fillCost)
      else some (facts, work)

/-- Iterate from no evidence, as long as the work lasts. A pass over a system
that is not empty costs work, so the fuel outlasts it. -/
def run (s : Sweep L) (work : Nat) : Option (List L × Nat) :=
  s.solve (work + 1) (List.replicate s.size s.bottom) work

end Sweep

end QuickJit
