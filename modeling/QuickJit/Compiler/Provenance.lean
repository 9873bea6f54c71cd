import QuickJit.Ir.Node
import QuickJit.Lib.Flat

/-
  Where the values of an optimized function come from
  (`jit/src/compiler/optimized.rs`).

  `resolve_opt_phi_provenance` gives every SSA value a provenance class. The
  values that are not phis come with theirs; a phi has the class of its inputs
  if they agree. The phis are visited in place, over and over, and an unassigned
  input is skipped, so a loop can take its class from the edge that enters it.
  Once nothing changes, what is still unassigned is fed by nothing: it becomes
  `Unknown`, and the visits go on until that has spread too.

  The control a compilation runs under may stop it at any charge. It is read as
  the stream of its answers.
-/

namespace QuickJit

open Function Outcome

inductive OptProvenance where
  | argument (index : Nat)
  | frameLocal (index : Nat)
  | immediatePrimitive
  | ownedSlot
  | unknown
  deriving DecidableEq, Repr

def mergeOptProvenance (lhs rhs : OptProvenance) : OptProvenance :=
  if lhs = rhs then lhs else .unknown

structure ProvenanceBudget where
  work : Nat
  /-- What the checks to come will answer, if there is a control. -/
  control : Option (Nat → Option CompileFailure)

namespace ProvenanceBudget

/-- `control.check()`. -/
def check (b : ProvenanceBudget) : CompileOutcome ProvenanceBudget :=
  match b.control with
  | none => pure b
  | some answers => match answers 0 with
    | some failure => Outcome.fail failure
    | none => pure { b with control := some fun n => answers (n + 1) }

def charge (b : ProvenanceBudget) (work : Nat) : CompileOutcome ProvenanceBudget := do
  let b ← b.check
  if work ≤ b.work then pure { b with work := b.work - work } else Outcome.fail .resourceLimit

end ProvenanceBudget

/-- The values being resolved, and whether this round has changed one. -/
structure Resolution where
  values : List (Option OptProvenance)
  changed : Bool
  budget : ProvenanceBudget

/-- Merge the class of one input of a phi. -/
def mergeInput (values : List (Option OptProvenance))
    (state : Option OptProvenance × ProvenanceBudget) (input : Nat) :
    CompileOutcome (Option OptProvenance × ProvenanceBudget) := do
  let budget ← state.2.charge 1
  let provenance ← Outcome.okOr .invalidArtifact values[input]?
  pure (match provenance, state.1 with
    | some provenance, some previous => some (mergeOptProvenance previous provenance)
    | some provenance, none => some provenance
    | none, merged => merged, budget)

/-- The class of a phi once the merged class of its inputs has come in. -/
def widen (merged : OptProvenance) : Option OptProvenance → OptProvenance
  | some previous => mergeOptProvenance previous merged
  | none => merged

def resolveValue (phiInputs : Nat → Option (List Nat)) (r : Resolution) (index : Nat) :
    CompileOutcome Resolution := do
  let budget ← r.budget.charge 1
  match phiInputs index with
  | none => pure { r with budget }
  | some inputs => do
    let (merged, budget) ← inputs.foldlM (mergeInput r.values) (none, budget)
    match merged with
    | none => pure { r with budget }
    | some merged => do
      let value ← Outcome.expect r.values[index]?
      if value = some (widen merged value) then pure { r with budget }
      else pure { values := r.values.set index (some (widen merged value)), changed := true, budget }

/-- Give up the values that are still unassigned. -/
def fillUnknown : List (Option OptProvenance) → Bool → ProvenanceBudget →
    CompileOutcome Resolution
  | [], changed, budget => pure { values := [], changed, budget }
  | value :: values, changed, budget => do
    let budget ← budget.charge 1
    let r ← fillUnknown values (changed || value.isNone) budget
    pure { r with values := some (value.getD .unknown) :: r.values }

/-- One turn of the loop. -/
def resolveRound (phiInputs : Nat → Option (List Nat)) (values : List (Option OptProvenance))
    (budget : ProvenanceBudget) : CompileOutcome Resolution := do
  let r ← (List.range values.length).foldlM (resolveValue phiInputs)
    { values, changed := false, budget }
  if r.changed then pure r else fillUnknown r.values r.changed r.budget

/-- The loop. -/
def resolveRounds (phiInputs : Nat → Option (List Nat)) :
    Nat → List (Option OptProvenance) → ProvenanceBudget →
      CompileOutcome (List (Option OptProvenance) × ProvenanceBudget)
  | 0, _, _ => .error .outOfFuel
  | fuel + 1, values, budget => do
    let r ← resolveRound phiInputs values budget
    if r.changed then resolveRounds phiInputs fuel r.values r.budget
    else pure (r.values, r.budget)

/-- A value changes at most twice, and every turn but the last changes one. -/
def resolveOptPhiProvenance (values : List (Option OptProvenance))
    (phiInputs : Nat → Option (List Nat)) (budget : ProvenanceBudget) :
    CompileOutcome (List (Option OptProvenance) × ProvenanceBudget) :=
  resolveRounds phiInputs (2 * values.length + 1) values budget

namespace Provenance

variable {i index j n : Nat} {b b' budget : ProvenanceBudget} {r r' : Resolution}
variable {values resolved : List (Option OptProvenance)} {phiInputs : Nat → Option (List Nat)}

/-! ## What is charged -/

/-- `n` units were charged between the two budgets. -/
structure Spent (n : Nat) (b b' : ProvenanceBudget) : Prop where
  work : b'.work + n = b.work
  control : b.control = none → b'.control = none

theorem Spent.refl (b : ProvenanceBudget) : Spent 0 b b := ⟨rfl, id⟩

theorem Spent.trans {m : Nat} {b'' : ProvenanceBudget} (h : Spent m b b') (h' : Spent n b' b'') :
    Spent (m + n) b b'' :=
  ⟨by have := h.work; have := h'.work; omega, fun hnone => h'.control (h.control hnone)⟩

theorem check_spent (h : b.check = .ok b') : Spent 0 b b' := by
  unfold ProvenanceBudget.check at h
  split at h
  · cases h
    exact .refl b
  case h_2 hsome =>
    split at h
    · cases h
    · cases h
      exact ⟨rfl, fun hnone => by rw [hsome] at hnone; cases hnone⟩

theorem charge_spent (h : b.charge n = .ok b') :
    Spent n b b' := by
  obtain ⟨b₁, hcheck, h⟩ := bind_eq_ok.mp h
  split at h
  case isTrue hle =>
    cases h
    have hspent := check_spent hcheck
    exact ⟨(Nat.sub_add_cancel hle).trans hspent.work, hspent.control⟩
  case isFalse => cases h

/-- Without a control only the work counts. -/
theorem charge_total (hcontrol : b.control = none) (hn : n ≤ b.work) :
    ∃ b', b.charge n = .ok b' := by
  have hcheck : b.check = .ok b := by
    rw [ProvenanceBudget.check, hcontrol]
    rfl
  exact ⟨{ b with work := b.work - n }, bind_eq_ok.mpr ⟨b, hcheck, if_pos hn⟩⟩

/-! ## Merging the inputs of a phi -/

/-- The class of a value; one that is not listed has nothing to say. -/
def factAt (values : List (Option OptProvenance)) (i : Nat) : Option OptProvenance :=
  values[i]?.getD (some .unknown)

theorem factAt_eq {a : Option OptProvenance} (h : values[i]? = some a) :
    factAt values i = a := by
  rw [factAt, h, Option.getD_some]

theorem mergeInput_ok {state r : Option OptProvenance × ProvenanceBudget} {input : Nat}
    (h : mergeInput values state input = .ok r) :
    input < values.length ∧ r.1 = Flat.joins .unknown state.1 (factAt values input) ∧
      Spent 1 state.2 r.2 := by
  obtain ⟨budget, hcharge, h⟩ := bind_eq_ok.mp h
  obtain ⟨provenance, hget, h⟩ := bind_eq_ok.mp h
  rw [okOr_eq_ok] at hget
  cases h
  refine ⟨(List.getElem?_eq_some_iff.mp hget).1, ?_, charge_spent hcharge⟩
  rw [factAt_eq hget]
  rcases state with ⟨_ | previous, b⟩ <;> cases provenance <;> rfl

theorem mergeInputs_ok : ∀ {inputs : List Nat} {state r : Option OptProvenance × ProvenanceBudget},
    inputs.foldlM (mergeInput values) state = .ok r →
      (∀ j ∈ inputs, j < values.length) ∧
      (∀ c, Flat.Below .unknown r.1 c ↔ Flat.Below .unknown state.1 c ∧
        ∀ j ∈ inputs, Flat.Below .unknown (factAt values j) c) ∧
      Spent inputs.length state.2 r.2
  | [], _, _, h => by
    cases h
    exact ⟨nofun, fun c => ⟨fun h => ⟨h, nofun⟩, fun h => h.1⟩, .refl _⟩
  | input :: inputs, state, r, h => by
    rw [List.foldlM_cons, bind_eq_ok] at h
    obtain ⟨state', hinput, h⟩ := h
    obtain ⟨hlt, hmerged, hspent⟩ := mergeInput_ok hinput
    obtain ⟨hrange, hbelow, hrest⟩ := mergeInputs_ok h
    refine ⟨List.forall_mem_cons.mpr ⟨hlt, hrange⟩, fun c => ?_, ?_⟩
    · rw [hbelow, hmerged, Flat.joins_below, List.forall_mem_cons, and_assoc]
    · rw [List.length_cons, Nat.add_comm]
      exact hspent.trans hrest

theorem mergeInputs_total : ∀ {inputs : List Nat} {state : Option OptProvenance × ProvenanceBudget},
    (∀ j ∈ inputs, j < values.length) → state.2.control = none → inputs.length ≤ state.2.work →
      ∃ r, inputs.foldlM (mergeInput values) state = .ok r
  | [], state, _, _, _ => ⟨state, rfl⟩
  | input :: inputs, state, hrange, hcontrol, hwork => by
    obtain ⟨hlt, hrange⟩ := List.forall_mem_cons.mp hrange
    rw [List.length_cons] at hwork
    obtain ⟨b, hb⟩ := charge_total hcontrol (n := 1) (by omega)
    have hinput : ∃ state', mergeInput values state input = .ok state' :=
      ⟨_, bind_eq_ok.mpr ⟨b, hb, bind_eq_ok.mpr ⟨values[input],
        okOr_eq_ok.mpr (List.getElem?_eq_getElem hlt), rfl⟩⟩⟩
    obtain ⟨state', hinput⟩ := hinput
    obtain ⟨-, -, hspent⟩ := mergeInput_ok hinput
    have hleft := hspent.work
    have hrest : inputs.length ≤ state'.2.work := by omega
    obtain ⟨r, hr⟩ := mergeInputs_total hrange (hspent.control hcontrol) hrest
    exact ⟨r, by rw [List.foldlM_cons]; exact bind_eq_ok.mpr ⟨state', hinput, hr⟩⟩

/-! ## Visiting a value -/

/-- `j` is an input of the phi `i`. -/
def PhiInput (phiInputs : Nat → Option (List Nat)) (i j : Nat) : Prop :=
  ∃ inputs, phiInputs i = some inputs ∧ j ∈ inputs

/-- What the class of a listed value has to cover. -/
def Edge (size : Nat) (phiInputs : Nat → Option (List Nat)) (i j : Nat) : Prop :=
  i < size ∧ PhiInput phiInputs i j

def visitCost (phiInputs : Nat → Option (List Nat)) (i : Nat) : Nat :=
  1 + ((phiInputs i).getD []).length

/-- How often the classes can still change. -/
def room (values : List (Option OptProvenance)) : Nat :=
  (values.map (Flat.room OptProvenance.unknown)).sum

theorem sum_map_set {α : Type} (f : α → Nat) : ∀ {l : List α} {i : Nat} {a : α} (b : α),
    l[i]? = some a → ((l.set i b).map f).sum + f a = (l.map f).sum + f b
  | [], i, a, b, h => by simp at h
  | x :: l, 0, a, b, h => by
    obtain rfl : x = a := by simpa using h
    simp only [List.set_cons_zero, List.map_cons, List.sum_cons]
    omega
  | x :: l, i + 1, a, b, h => by
    have hrest := sum_map_set f b (l := l) (i := i) (a := a) (by simpa using h)
    simp only [List.set_cons_succ, List.map_cons, List.sum_cons]
    omega

theorem factAt_set {a : Option OptProvenance} (hi : i < values.length) :
    factAt (values.set i a) = update (factAt values) i a := by
  funext j
  unfold factAt
  rcases eq_or_ne j i with rfl | hne
  · rw [List.getElem?_set_self hi, update_self, Option.getD_some]
  · rw [List.getElem?_set_ne hne.symm, update_of_ne hne]

/-- What visits to the values of `done` make of the state. -/
structure Visited (phiInputs : Nat → Option (List Nat)) (done : List Nat) (r r' : Resolution) :
    Prop where
  length : r'.values.length = r.values.length
  grows : Flat.Grows .unknown (Edge r.values.length phiInputs) (factAt r.values) (factAt r'.values)
  listed : ∀ i ∈ done, ∀ j, PhiInput phiInputs i j → j < r.values.length
  unchanged : r'.changed = false → r.changed = false ∧ r'.values = r.values ∧
    ∀ i ∈ done, ∀ j, PhiInput phiInputs i j →
      Flat.Below .unknown (factAt r.values j) (factAt r.values i)
  room : room r'.values + r'.changed.toNat ≤ room r.values + r.changed.toNat
  spent : Spent (done.map (visitCost phiInputs)).sum r.budget r'.budget

theorem Visited.refl (r : Resolution) : Visited phiInputs [] r r where
  length := rfl
  grows := .refl _
  listed := nofun
  unchanged h := ⟨h, rfl, nofun⟩
  room := Nat.le_refl _
  spent := .refl _

theorem Visited.trans {done done' : List Nat} {r'' : Resolution} (h : Visited phiInputs done r r')
    (h' : Visited phiInputs done' r' r'') :
    Visited phiInputs (done ++ done') r r'' where
  length := h'.length.trans h.length
  grows := h.grows.trans (h.length ▸ h'.grows)
  listed := by
    intro i hi
    rcases List.mem_append.mp hi with hi | hi
    · exact h.listed i hi
    · exact h.length ▸ h'.listed i hi
  unchanged hsame := by
    obtain ⟨hsame, hvalues', hbelow'⟩ := h'.unchanged hsame
    obtain ⟨hsame, hvalues, hbelow⟩ := h.unchanged hsame
    refine ⟨hsame, hvalues'.trans hvalues, fun i hi => ?_⟩
    rcases List.mem_append.mp hi with hi | hi
    · exact hbelow i hi
    · exact hvalues ▸ hbelow' i hi
  room := h'.room.trans h.room
  spent := by
    rw [List.map_append, List.sum_append]
    exact h.spent.trans h'.spent

theorem phiInput_none (h : phiInputs i = none) : ¬ PhiInput phiInputs i j := by
  rintro ⟨inputs, hinputs, -⟩
  rw [h] at hinputs
  cases hinputs

theorem phiInput_some {inputs : List Nat} (h : phiInputs i = some inputs) :
    PhiInput phiInputs i j ↔ j ∈ inputs := by
  refine ⟨?_, fun hj => ⟨inputs, h, hj⟩⟩
  rintro ⟨inputs', hinputs', hj⟩
  rw [h] at hinputs'
  exact Option.some.inj hinputs' ▸ hj

/-- A visit that leaves its value as it is. -/
theorem Visited.same (hspent : Spent (visitCost phiInputs index) r.budget budget)
    (hlisted : ∀ j, PhiInput phiInputs index j → j < r.values.length)
    (hbelow : ∀ j, PhiInput phiInputs index j →
      Flat.Below .unknown (factAt r.values j) (factAt r.values index)) :
    Visited phiInputs [index] r { r with budget } where
  length := rfl
  grows := .refl _
  listed := by simpa using hlisted
  unchanged h := ⟨h, rfl, by simpa using hbelow⟩
  room := Nat.le_refl _
  spent := by simpa using hspent

theorem Visited.widen {value widened : Option OptProvenance}
    (hvalue : r.values[index]? = some value)
    (hspent : Spent (visitCost phiInputs index) r.budget budget)
    (hlisted : ∀ j, PhiInput phiInputs index j → j < r.values.length)
    (hwidened : ∀ c, Flat.Below .unknown widened c ↔ Flat.Below .unknown value c ∧
      ∀ j, PhiInput phiInputs index j → Flat.Below .unknown (factAt r.values j) c)
    (hne : value ≠ widened) :
    Visited phiInputs [index] r
      { values := r.values.set index widened, changed := true, budget } where
  length := List.length_set
  grows := by
    have hindex := (List.getElem?_eq_some_iff.mp hvalue).1
    rw [factAt_set hindex]
    have hfact := factAt_eq hvalue
    refine .update (hfact ▸ ((hwidened widened).mp (.refl _)).1) fun c hc hedge => ?_
    exact (hwidened c).mpr ⟨hfact ▸ hc, fun j hj => hedge j ⟨hindex, hj⟩⟩
  listed := by simpa using hlisted
  unchanged := nofun
  room := by
    have hsum := sum_map_set (Flat.room OptProvenance.unknown) widened hvalue
    have hlt := Flat.room_lt ((hwidened widened).mp (.refl _)).1 hne
    simp only [Provenance.room, Bool.toNat_true]
    omega
  spent := by simpa using hspent

theorem resolveValue_visited (h : resolveValue phiInputs r index = .ok r') :
    Visited phiInputs [index] r r' := by
  obtain ⟨budget, hcharge, h⟩ := bind_eq_ok.mp h
  have hcharged := charge_spent hcharge
  split at h
  case h_1 hnone =>
    cases h
    have hcost : visitCost phiInputs index = 1 := by simp [visitCost, hnone]
    exact .same (hcost ▸ hcharged) (fun j hj => absurd hj (phiInput_none hnone))
      fun j hj => absurd hj (phiInput_none hnone)
  case h_2 inputs hsome =>
    obtain ⟨⟨merged, budget'⟩, hmerge, h⟩ := bind_eq_ok.mp h
    obtain ⟨hlisted, hmerged, hmerging⟩ := mergeInputs_ok hmerge
    have hcost : visitCost phiInputs index = 1 + inputs.length := by simp [visitCost, hsome]
    have hspent : Spent (visitCost phiInputs index) r.budget budget' :=
      hcost ▸ hcharged.trans hmerging
    simp only [← phiInput_some hsome] at hlisted hmerged
    dsimp only at h
    split at h
    case h_1 =>
      cases h
      have hmissing := ((hmerged none).mp (.refl _)).2
      exact .same hspent hlisted fun j hj => (hmissing j hj).trans (.inl rfl)
    case h_2 merged =>
      obtain ⟨value, hvalue, h⟩ := bind_eq_ok.mp h
      rw [expect_eq_ok] at hvalue
      have hjoin : some (widen merged value) = Flat.joins .unknown value (some merged) := by
        cases value <;> rfl
      have hwidened : ∀ c, Flat.Below .unknown (Flat.joins .unknown value (some merged)) c ↔
          Flat.Below .unknown value c ∧
            ∀ j, PhiInput phiInputs index j → Flat.Below .unknown (factAt r.values j) c := by
        intro c
        rw [Flat.joins_below, hmerged c]
        exact and_congr_right fun _ => and_iff_right (.inl rfl)
      rw [hjoin] at h
      split at h
      case isTrue heq =>
        cases h
        refine .same hspent hlisted fun j hj => ?_
        rw [factAt_eq hvalue, heq]
        exact ((hwidened _).mp (.refl _)).2 j hj
      case isFalse hne =>
        cases h
        exact .widen hvalue hspent hlisted hwidened hne

theorem resolveValue_total (hindex : index < r.values.length)
    (hlisted : ∀ j, PhiInput phiInputs index j → j < r.values.length)
    (hcontrol : r.budget.control = none) (hwork : visitCost phiInputs index ≤ r.budget.work) :
    ∃ r', resolveValue phiInputs r index = .ok r' := by
  unfold visitCost at hwork
  obtain ⟨budget, hcharge⟩ := charge_total hcontrol (n := 1) (by omega)
  have hspent := charge_spent hcharge
  have hleft := hspent.work
  unfold resolveValue
  simp only [bind_eq_ok, hcharge, Except.ok.injEq, exists_eq_left']
  cases hinputs : phiInputs index with
  | none => exact ⟨_, rfl⟩
  | some inputs =>
    simp only [hinputs, Option.getD_some] at hwork
    simp only [phiInput_some hinputs] at hlisted
    have hrest : inputs.length ≤ ((none : Option OptProvenance), budget).2.work := by
      dsimp only
      omega
    obtain ⟨⟨merged, budget'⟩, hmerge⟩ :=
      mergeInputs_total hlisted (hspent.control hcontrol) hrest
    simp only [bind_eq_ok, hmerge, Except.ok.injEq, exists_eq_left']
    cases merged with
    | none => exact ⟨_, rfl⟩
    | some merged =>
      simp only [bind_eq_ok, List.getElem?_eq_getElem hindex, expect_eq_ok,
        Option.some.injEq, exists_eq_left']
      split
      · exact ⟨_, rfl⟩
      · exact ⟨_, rfl⟩

/-! ## A round -/

theorem visits_visited {l : List Nat} (h : l.foldlM (resolveValue phiInputs) r = .ok r') :
    Visited phiInputs l r r' :=
  foldlM_inv (P := fun done s => Visited phiInputs done r s) h (.refl r)
    fun _ _ _ _ _ _ hdone hstep => hdone.trans (resolveValue_visited hstep)

theorem visits_total : ∀ {l : List Nat} {r : Resolution}, (∀ i ∈ l, i < r.values.length) →
    (∀ i ∈ l, ∀ j, PhiInput phiInputs i j → j < r.values.length) → r.budget.control = none →
    (l.map (visitCost phiInputs)).sum ≤ r.budget.work →
      ∃ r', l.foldlM (resolveValue phiInputs) r = .ok r'
  | [], r, _, _, _, _ => ⟨r, rfl⟩
  | i :: l, r, hl, hlisted, hcontrol, hwork => by
    rw [List.map_cons, List.sum_cons] at hwork
    obtain ⟨hi, hl⟩ := List.forall_mem_cons.mp hl
    obtain ⟨hlisti, hlisted⟩ := List.forall_mem_cons.mp hlisted
    obtain ⟨r₁, hvisit⟩ := resolveValue_total hi hlisti hcontrol (by omega)
    have hvisited := resolveValue_visited hvisit
    have hleft := hvisited.spent.work
    simp only [List.map_cons, List.map_nil, List.sum_cons, List.sum_nil, Nat.add_zero] at hleft
    rw [← hvisited.length] at hl hlisted
    obtain ⟨r', hr'⟩ := visits_total hl hlisted (hvisited.spent.control hcontrol) (by omega)
    exact ⟨r', by rw [List.foldlM_cons]; exact bind_eq_ok.mpr ⟨r₁, hvisit, hr'⟩⟩

theorem fillUnknown_ok : ∀ {values : List (Option OptProvenance)} {changed : Bool}
    {budget : ProvenanceBudget} {r : Resolution}, fillUnknown values changed budget = .ok r →
      r.values = values.map (fun value => some (value.getD .unknown)) ∧
      r.changed = (changed || values.any Option.isNone) ∧ Spent values.length budget r.budget
  | [], _, _, _, h => by
    cases h
    exact ⟨rfl, (Bool.or_false _).symm, .refl _⟩
  | value :: values, changed, budget, r, h => by
    obtain ⟨budget₁, hcharge, h⟩ := bind_eq_ok.mp h
    obtain ⟨r₁, hrest, h⟩ := bind_eq_ok.mp h
    obtain ⟨hvalues, hchanged, hspent⟩ := fillUnknown_ok hrest
    cases h
    refine ⟨by rw [hvalues, List.map_cons], by rw [hchanged, List.any_cons, Bool.or_assoc], ?_⟩
    rw [List.length_cons, Nat.add_comm]
    exact (charge_spent hcharge).trans hspent

theorem fillUnknown_total : ∀ {values : List (Option OptProvenance)} {changed : Bool}
    {budget : ProvenanceBudget}, budget.control = none → values.length ≤ budget.work →
      ∃ r, fillUnknown values changed budget = .ok r
  | [], _, _, _, _ => ⟨_, rfl⟩
  | value :: values, changed, budget, hcontrol, hwork => by
    rw [List.length_cons] at hwork
    obtain ⟨budget₁, hcharge⟩ := charge_total hcontrol (n := 1) (by omega)
    have hspent := charge_spent hcharge
    have hleft := hspent.work
    have hrest : values.length ≤ budget₁.work := by omega
    obtain ⟨r, hr⟩ := fillUnknown_total (hspent.control hcontrol) hrest
    exact ⟨_, bind_eq_ok.mpr ⟨budget₁, hcharge, bind_eq_ok.mpr ⟨r, hr, rfl⟩⟩⟩

theorem factAt_fill (values : List (Option OptProvenance)) :
    factAt (values.map fun value => some (value.getD .unknown)) =
      Flat.settle .unknown (factAt values) := by
  funext i
  simp only [factAt, Flat.settle, List.getElem?_map]
  cases values[i]? <;> rfl

theorem any_isNone_iff :
    values.any Option.isNone = true ↔ ∃ i, factAt values i = none := by
  rw [List.any_eq_true]
  constructor
  · rintro ⟨value, hmem, hnone⟩
    obtain ⟨i, hi⟩ := List.mem_iff_getElem?.mp hmem
    exact ⟨i, (factAt_eq hi).trans (Option.isNone_iff_eq_none.mp hnone)⟩
  · rintro ⟨i, hi⟩
    unfold factAt at hi
    cases hget : values[i]? with
    | none =>
      rw [hget] at hi
      cases hi
    | some value =>
      rw [hget, Option.getD_some] at hi
      exact ⟨value, List.mem_of_getElem? hget, Option.isNone_iff_eq_none.mpr hi⟩

theorem room_fill : ∀ (values : List (Option OptProvenance)),
    room (values.map fun value => some (value.getD .unknown)) + (values.any Option.isNone).toNat ≤
      room values
  | [] => Nat.le_refl _
  | value :: values => by
    have hrest := room_fill values
    unfold room at hrest ⊢
    cases value with
    | none =>
      simp only [List.map_cons, List.sum_cons, List.any_cons, Option.isNone_none, Bool.true_or,
        Option.getD_none, Flat.room, if_true, Bool.toNat_true]
      omega
    | some a =>
      simp only [List.map_cons, List.sum_cons, List.any_cons, Option.isNone_some, Bool.false_or,
        Option.getD_some]
      omega

def roundCost (size : Nat) (phiInputs : Nat → Option (List Nat)) : Nat :=
  ((List.range size).map (visitCost phiInputs)).sum + size

/-- What a round does: it widens values, or it finds nothing to widen and gives
up the values without a class. -/
structure Round (phiInputs : Nat → Option (List Nat)) (values : List (Option OptProvenance))
    (budget : ProvenanceBudget) (r : Resolution) : Prop where
  length : r.values.length = values.length
  listed : ∀ i < values.length, ∀ j, PhiInput phiInputs i j → j < values.length
  facts : r.changed = true ∧
      Flat.Grows .unknown (Edge values.length phiInputs) (factAt values) (factAt r.values) ∨
    Flat.Closed .unknown (Edge values.length phiInputs) (factAt values) ∧
      factAt r.values = Flat.settle .unknown (factAt values) ∧
      (r.changed = true ↔ ∃ i, factAt values i = none)
  room : room r.values + r.changed.toNat ≤ room values
  spent : ∃ cost ≤ roundCost values.length phiInputs, Spent cost budget r.budget

theorem resolveRound_ok (h : resolveRound phiInputs values budget = .ok r) :
    Round phiInputs values budget r := by
  obtain ⟨r₁, hvisits, h⟩ := bind_eq_ok.mp h
  have hvisited := visits_visited hvisits
  have hlisted : ∀ i < values.length, ∀ j, PhiInput phiInputs i j → j < values.length :=
    fun i hi => hvisited.listed i (List.mem_range.mpr hi)
  split at h
  case isTrue hchanged =>
    cases h
    exact ⟨hvisited.length, hlisted, .inl ⟨hchanged, hvisited.grows⟩, hvisited.room,
      _, Nat.le_add_right _ _, hvisited.spent⟩
  case isFalse hsame =>
    rw [Bool.not_eq_true] at hsame
    obtain ⟨-, hvalues, hbelow⟩ := hvisited.unchanged hsame
    dsimp only at hvalues hbelow
    obtain ⟨hfilled, hchanged, hspent⟩ := fillUnknown_ok h
    rw [hvalues] at hfilled hchanged hspent
    rw [hsame, Bool.false_or] at hchanged
    refine ⟨by rw [hfilled, List.length_map], hlisted, .inr ⟨?_, ?_, ?_⟩, ?_, _, Nat.le_refl _,
      hvisited.spent.trans hspent⟩
    · rintro i j ⟨hi, hij⟩
      exact hbelow i (List.mem_range.mpr hi) j hij
    · rw [hfilled, factAt_fill]
    · rw [hchanged, any_isNone_iff]
    · rw [hfilled, hchanged]
      exact room_fill values

theorem resolveRound_total
    (hlisted : ∀ i < values.length, ∀ j, PhiInput phiInputs i j → j < values.length)
    (hcontrol : budget.control = none) (hwork : roundCost values.length phiInputs ≤ budget.work) :
    ∃ r, resolveRound phiInputs values budget = .ok r := by
  unfold roundCost at hwork
  have hstart : ∀ i ∈ List.range values.length, i < values.length := fun i hi => List.mem_range.mp hi
  obtain ⟨r₁, hvisits⟩ := visits_total (r := { values, changed := false, budget }) hstart
    (fun i hi => hlisted i (hstart i hi)) hcontrol (by dsimp only; omega)
  have hvisited := visits_visited hvisits
  have hleft := hvisited.spent.work
  dsimp only at hleft
  have hlength : r₁.values.length = values.length := hvisited.length
  by_cases hchanged : r₁.changed = true
  · exact ⟨r₁, bind_eq_ok.mpr ⟨r₁, hvisits, if_pos hchanged⟩⟩
  · have hrest : r₁.values.length ≤ r₁.budget.work := by omega
    obtain ⟨r, hr⟩ := fillUnknown_total (hvisited.spent.control hcontrol) hrest
    exact ⟨r, bind_eq_ok.mpr ⟨r₁, hvisits, (if_neg hchanged).trans hr⟩⟩

/-! ## The whole loop -/

/-- The classes rise from the first ones, or, once nothing is left to widen
there, from those with the unassigned ones given up. -/
def Stage (size : Nat) (phiInputs : Nat → Option (List Nat)) (x₀ x : Nat → Option OptProvenance) :
    Prop :=
  Flat.Grows .unknown (Edge size phiInputs) x₀ x ∨
    ∃ m, Flat.Least .unknown (Edge size phiInputs) x₀ m ∧
      Flat.Grows .unknown (Edge size phiInputs) (Flat.settle .unknown m) x

section

variable {budget : ProvenanceBudget} {r : Resolution} {x₀ : Nat → Option OptProvenance}

theorem Round.stage (h : Round phiInputs values budget r)
    (hstage : Stage values.length phiInputs x₀ (factAt values)) (hchanged : r.changed = true) :
    Stage values.length phiInputs x₀ (factAt r.values) := by
  rcases h.facts with ⟨-, hgrows⟩ | ⟨hclosed, hfilled, hnone⟩
  · rcases hstage with hstage | ⟨m, hm, hstage⟩
    · exact .inl (hstage.trans hgrows)
    · exact .inr ⟨m, hm, hstage.trans hgrows⟩
  · rcases hstage with hstage | ⟨m, hm, hstage⟩
    · exact .inr ⟨factAt values, hstage.least hclosed, hfilled ▸ .refl _⟩
    · -- the second time nothing is unassigned any more
      obtain ⟨i, hi⟩ := hnone.mp hchanged
      exact absurd hi (Flat.Resolves.ne_none ⟨m, hm, hstage.least hclosed⟩ i)

theorem Round.resolves (h : Round phiInputs values budget r)
    (hstage : Stage values.length phiInputs x₀ (factAt values)) (hsame : r.changed = false) :
    Flat.Resolves .unknown (Edge values.length phiInputs) x₀ (factAt r.values) := by
  rcases h.facts with ⟨hchanged, -⟩ | ⟨hclosed, hfilled, hnone⟩
  · rw [hsame] at hchanged
    cases hchanged
  · have hassigned : ∀ i, factAt values i ≠ none := by
      intro i hi
      have hchanged := hnone.mpr ⟨i, hi⟩
      rw [hsame] at hchanged
      cases hchanged
    have hsettled : Flat.settle .unknown (factAt values) = factAt values := by
      funext i
      cases hi : factAt values i with
      | none => exact absurd hi (hassigned i)
      | some a => rw [Flat.settle, hi, Option.getD_some]
    rw [hfilled, hsettled]
    rcases hstage with hstage | ⟨m, hm, hstage⟩
    · exact ⟨factAt values, hstage.least hclosed,
        hsettled.symm ▸ (Flat.Grows.refl (factAt values)).least hclosed⟩
    · exact ⟨m, hm, hstage.least hclosed⟩

end

theorem resolveRounds_ok {x₀ : Nat → Option OptProvenance} :
    ∀ {fuel : Nat} {values : List (Option OptProvenance)} {budget : ProvenanceBudget}
      {result : List (Option OptProvenance) × ProvenanceBudget},
    resolveRounds phiInputs fuel values budget = .ok result →
    Stage values.length phiInputs x₀ (factAt values) →
      result.1.length = values.length ∧
      (∀ i < values.length, ∀ j, PhiInput phiInputs i j → j < values.length) ∧
      Flat.Resolves .unknown (Edge values.length phiInputs) x₀ (factAt result.1)
  | fuel + 1, values, budget, result, h, hstage => by
    obtain ⟨r, hr, h⟩ := bind_eq_ok.mp h
    have hround := resolveRound_ok hr
    split at h
    case isTrue hchanged =>
      have hnext := hround.stage hstage hchanged
      rw [← hround.length] at hnext ⊢
      exact resolveRounds_ok h hnext
    case isFalse hsame =>
      cases h
      exact ⟨hround.length, hround.listed,
        hround.resolves hstage (Bool.eq_false_iff.mpr hsame)⟩

/-- The classes the loop returns follow from the first ones. -/
theorem resolve_resolves {result : List (Option OptProvenance) × ProvenanceBudget}
    (h : resolveOptPhiProvenance values phiInputs budget = .ok result) :
    result.1.length = values.length ∧
    (∀ i < values.length, ∀ j, PhiInput phiInputs i j → j < values.length) ∧
    Flat.Resolves .unknown (Edge values.length phiInputs) (factAt values) (factAt result.1) :=
  resolveRounds_ok h (.inl (.refl _))

theorem room_le (values : List (Option OptProvenance)) : room values ≤ 2 * values.length := by
  have hle : ∀ n ∈ values.map (Flat.room OptProvenance.unknown), n ≤ 2 := by
    intro n hn
    obtain ⟨value, -, rfl⟩ := List.mem_map.mp hn
    cases value with
    | none => exact Nat.le_refl 2
    | some a => by_cases ha : a = .unknown <;> simp [Flat.room, ha]
  have hsum := List.sum_le_card_nsmul _ 2 hle
  rwa [List.length_map, smul_eq_mul, Nat.mul_comm] at hsum

theorem resolveRounds_total : ∀ {fuel : Nat} {values : List (Option OptProvenance)}
    {budget : ProvenanceBudget},
    (∀ i < values.length, ∀ j, PhiInput phiInputs i j → j < values.length) →
    budget.control = none → room values < fuel →
    (room values + 1) * roundCost values.length phiInputs ≤ budget.work →
      ∃ result, resolveRounds phiInputs fuel values budget = .ok result
  | fuel + 1, values, budget, hlisted, hcontrol, hfuel, hwork => by
    rw [Nat.succ_mul] at hwork
    obtain ⟨r, hr⟩ := resolveRound_total hlisted hcontrol (by omega)
    have hround := resolveRound_ok hr
    obtain ⟨cost, hcost, hspent⟩ := hround.spent
    by_cases hchanged : r.changed = true
    · have hroom := hround.room
      have hleft := hspent.work
      rw [hchanged, Bool.toNat_true] at hroom
      have hmul : (room r.values + 1) * roundCost values.length phiInputs ≤
          room values * roundCost values.length phiInputs := Nat.mul_le_mul_right _ hroom
      rw [← hround.length] at hlisted hmul hcost
      rw [← hround.length] at hwork
      obtain ⟨result, hresult⟩ := resolveRounds_total hlisted (hspent.control hcontrol)
        (show room r.values < fuel by omega) (by omega)
      exact ⟨result, bind_eq_ok.mpr ⟨r, hr, (if_pos hchanged).trans hresult⟩⟩
    · exact ⟨_, bind_eq_ok.mpr ⟨r, hr, if_neg hchanged⟩⟩

theorem check_ne_outOfFuel (b : ProvenanceBudget) : b.check ≠ .error .outOfFuel := by
  unfold ProvenanceBudget.check
  split
  · nofun
  · split <;> nofun

theorem charge_ne_outOfFuel (b : ProvenanceBudget) (n : Nat) : b.charge n ≠ .error .outOfFuel := by
  refine bind_ne_outOfFuel (check_ne_outOfFuel b) fun b' => ?_
  split <;> nofun

theorem mergeInput_ne_outOfFuel (state : Option OptProvenance × ProvenanceBudget) (input : Nat) :
    mergeInput values state input ≠ .error .outOfFuel :=
  bind_ne_outOfFuel (charge_ne_outOfFuel _ _) fun _ =>
    bind_ne_outOfFuel okOr_ne_outOfFuel fun _ => nofun

theorem resolveValue_ne_outOfFuel (r : Resolution) (index : Nat) :
    resolveValue phiInputs r index ≠ .error .outOfFuel := by
  refine bind_ne_outOfFuel (charge_ne_outOfFuel _ _) fun budget => ?_
  split
  · nofun
  refine bind_ne_outOfFuel (foldlM_ne_outOfFuel mergeInput_ne_outOfFuel _ _) ?_
  rintro ⟨merged, budget⟩
  dsimp only
  split
  · nofun
  refine bind_ne_outOfFuel expect_ne_outOfFuel fun value => ?_
  split <;> nofun

theorem fillUnknown_ne_outOfFuel : ∀ (values : List (Option OptProvenance)) (changed : Bool)
    (budget : ProvenanceBudget), fillUnknown values changed budget ≠ .error .outOfFuel
  | [], _, _ => nofun
  | _ :: values, _, _ =>
    bind_ne_outOfFuel (charge_ne_outOfFuel _ _) fun _ =>
      bind_ne_outOfFuel (fillUnknown_ne_outOfFuel values _ _) fun _ => nofun

theorem resolveRounds_ne_outOfFuel : ∀ {fuel : Nat} {values : List (Option OptProvenance)}
    {budget : ProvenanceBudget}, room values < fuel →
      resolveRounds phiInputs fuel values budget ≠ .error .outOfFuel
  | fuel + 1, values, budget, hfuel => by
    have hturn : resolveRound phiInputs values budget ≠ .error .outOfFuel := by
      refine bind_ne_outOfFuel
        (foldlM_ne_outOfFuel resolveValue_ne_outOfFuel _ _) fun r => ?_
      split
      · nofun
      · exact fillUnknown_ne_outOfFuel _ _ _
    unfold resolveRounds
    cases hr : resolveRound phiInputs values budget with
    | error e =>
      intro h
      exact hturn (hr.trans (congrArg Except.error (Except.error.inj h)))
    | ok r =>
      show (if r.changed = true then resolveRounds phiInputs fuel r.values r.budget
        else pure (r.values, r.budget)) ≠ .error .outOfFuel
      split
      case isTrue hchanged =>
        have hroom := (resolveRound_ok hr).room
        rw [hchanged, Bool.toNat_true] at hroom
        exact resolveRounds_ne_outOfFuel (by omega)
      case isFalse => nofun

/-- The turns of the loop are enough, whatever the budget. -/
theorem resolve_ne_outOfFuel (budget : ProvenanceBudget) :
    resolveOptPhiProvenance values phiInputs budget ≠ .error .outOfFuel :=
  resolveRounds_ne_outOfFuel (Nat.lt_succ_of_le (room_le values))

/-- Enough work, and no control that stops it, lets the loop end. -/
theorem resolve_total
    (hlisted : ∀ i < values.length, ∀ j, PhiInput phiInputs i j → j < values.length)
    (hcontrol : budget.control = none)
    (hwork : (2 * values.length + 1) * roundCost values.length phiInputs ≤ budget.work) :
    ∃ result, resolveOptPhiProvenance values phiInputs budget = .ok result := by
  have hroom := room_le values
  refine resolveRounds_total hlisted hcontrol (by omega) (le_trans ?_ hwork)
  exact Nat.mul_le_mul_right _ (by omega)

/-! ## Soundness and independence of the order -/

/-- What the resolved classes owe to the first ones. -/
structure Resolved (values : List (Option OptProvenance)) (phiInputs : Nat → Option (List Nat))
    (resolved : List (Option OptProvenance)) : Prop where
  length : resolved.length = values.length
  seeds : ∀ i < values.length, phiInputs i = none →
    resolved[i]? = some (some ((values[i]?.join).getD .unknown))
  phis : ∀ i < values.length, ∀ inputs, phiInputs i = some inputs →
    ∃ c, resolved[i]? = some (some c) ∧
      (c = .unknown ∨ ∀ j ∈ inputs, resolved[j]? = some (some c))
  grounded : ∀ i < values.length, phiInputs i ≠ none → ∀ c ≠ OptProvenance.unknown,
    resolved[i]? = some (some c) →
      (∃ j, Relation.TransGen (PhiInput phiInputs) i j ∧ phiInputs j = none ∧
        resolved[j]? = some (some c)) ∧
      ∀ j, Relation.TransGen (PhiInput phiInputs) i j → phiInputs j = none →
        resolved[j]? = some (some c)

/-- The same values in another order: value `i` is listed as value `σ i`. -/
structure Relisted (σ : Equiv.Perm Nat) (values values' : List (Option OptProvenance))
    (phiInputs phiInputs' : Nat → Option (List Nat)) : Prop where
  length : values'.length = values.length
  range : ∀ i, σ i < values.length ↔ i < values.length
  value : ∀ i < values.length, values'[σ i]? = values[i]?
  inputs : ∀ i < values.length, ∀ j, PhiInput phiInputs' (σ i) (σ j) ↔ PhiInput phiInputs i j

theorem factAt_listed (hi : i < values.length) : values[i]? = some (factAt values i) := by
  rw [factAt, List.getElem?_eq_getElem hi, Option.getD_some]

/-- Only a listed value has a definite class. -/
theorem getElem?_of_factAt {c : OptProvenance} (h : factAt values i = some c) (hc : c ≠ .unknown) :
    values[i]? = some (some c) := by
  unfold factAt at h
  cases hget : values[i]? with
  | none =>
    rw [hget] at h
    exact absurd (Option.some.inj h).symm hc
  | some value =>
    rw [hget, Option.getD_some] at h
    rw [h]

theorem edges_of_reaches (hlisted : ∀ i < values.length, ∀ j, PhiInput phiInputs i j →
    j < values.length) (hi : i < values.length) (h : Relation.TransGen (PhiInput phiInputs) i j) :
    Relation.ReflTransGen (Edge values.length phiInputs) i j ∧ j < values.length := by
  induction h with
  | single hij => exact ⟨.single ⟨hi, hij⟩, hlisted i hi _ hij⟩
  | tail _ hjk ih => exact ⟨ih.1.tail ⟨ih.2, hjk⟩, hlisted _ ih.2 _ hjk⟩

theorem resolved_of_resolves (hlength : resolved.length = values.length)
    (hlisted : ∀ i < values.length, ∀ j, PhiInput phiInputs i j → j < values.length)
    (h : Flat.Resolves .unknown (Edge values.length phiInputs) (factAt values) (factAt resolved))
    (hphis : ∀ i < values.length, phiInputs i ≠ none → values[i]? = some none) :
    Resolved values phiInputs resolved where
  length := hlength
  seeds i hi hnone := by
    have hfact := h.eq_of_no_edge fun j hij => phiInput_none hnone hij.2
    rw [factAt_listed (hlength.symm ▸ hi), hfact, factAt_listed hi]
    rfl
  phis i hi inputs hinputs := by
    have hget : resolved[i]? = some (factAt resolved i) := factAt_listed (hlength.symm ▸ hi)
    cases hfact : factAt resolved i with
    | none => exact absurd hfact (h.ne_none i)
    | some c =>
      refine ⟨c, hget.trans (congrArg some hfact), ?_⟩
      by_cases hc : c = .unknown
      · exact .inl hc
      · refine .inr fun j hj => getElem?_of_factAt ?_ hc
        exact h.reaches hfact hc (.single ⟨hi, (phiInput_some hinputs).mpr hj⟩)
  grounded i hi hphi c hc hget := by
    have hfact : factAt resolved i = some c := factAt_eq hget
    constructor
    · obtain ⟨j, hij, hseed⟩ := h.seeded hfact hc
      have hseed := getElem?_of_factAt hseed hc
      have hj : phiInputs j = none := by
        by_contra hj
        have hunassigned := hphis j (List.getElem?_eq_some_iff.mp hseed).1 hj
        rw [hseed] at hunassigned
        cases hunassigned
      refine ⟨j, ?_, hj, getElem?_of_factAt (h.reaches hfact hc hij) hc⟩
      rcases Relation.reflTransGen_iff_eq_or_transGen.mp hij with rfl | hij
      · exact absurd hj hphi
      · have hinput : Edge values.length phiInputs ≤ PhiInput phiInputs := fun _ _ hedge => hedge.2
        exact Relation.TransGen.mono hinput i j hij
    · intro j hij _
      exact getElem?_of_factAt (h.reaches hfact hc (edges_of_reaches hlisted hi hij).1) hc

section Order

variable {σ : Equiv.Perm Nat} {values' : List (Option OptProvenance)}
  {phiInputs' : Nat → Option (List Nat)}

variable (h : Relisted σ values values' phiInputs phiInputs')

include h

theorem Relisted.facts :
    factAt values ∘ σ.symm = factAt values' := by
  funext k
  obtain ⟨i, rfl⟩ := σ.surjective k
  rw [comp_apply, σ.symm_apply_apply]
  by_cases hi : i < values.length
  · exact (factAt_eq ((h.value i hi).trans (factAt_listed hi))).symm
  · have hi' : ¬ σ i < values'.length := by
      rw [h.length, h.range]
      exact hi
    unfold factAt
    rw [List.getElem?_eq_none (Nat.not_lt.mp hi), List.getElem?_eq_none (Nat.not_lt.mp hi')]

theorem Relisted.resolves {y : Nat → Option OptProvenance}
    (hy : Flat.Resolves .unknown (Edge values.length phiInputs) (factAt values) y) :
    Flat.Resolves .unknown (Edge values'.length phiInputs') (factAt values') (y ∘ σ.symm) := by
  rw [← h.facts, h.length]
  refine hy.rename σ fun i j => ?_
  unfold Edge
  rw [h.range]
  exact and_congr_right fun hi => h.inputs i hi j

theorem Relisted.listed
    (hlisted : ∀ i < values.length, ∀ j, PhiInput phiInputs i j → j < values.length) :
    ∀ i < values'.length, ∀ j, PhiInput phiInputs' i j → j < values'.length := by
  intro k hk l hkl
  obtain ⟨i, rfl⟩ := σ.surjective k
  obtain ⟨j, rfl⟩ := σ.surjective l
  rw [h.length] at hk ⊢
  rw [h.range] at hk ⊢
  exact hlisted i hk j ((h.inputs i hk j).mp hkl)

/-- In another order the same classes come out. -/
theorem Relisted.same {budget' : ProvenanceBudget}
    {result result' : List (Option OptProvenance) × ProvenanceBudget}
    (hresult : resolveOptPhiProvenance values phiInputs budget = .ok result)
    (hresult' : resolveOptPhiProvenance values' phiInputs' budget' = .ok result')
    (hi : i < values.length) : result'.1[σ i]? = result.1[i]? := by
  obtain ⟨hlength, -, hresolves⟩ := resolve_resolves hresult
  obtain ⟨hlength', -, hresolves'⟩ := resolve_resolves hresult'
  have hsame := congrFun ((h.resolves hresolves).unique hresolves') (σ i)
  rw [comp_apply, σ.symm_apply_apply] at hsame
  have hi' : σ i < result'.1.length := by
    rw [hlength', h.length, h.range]
    exact hi
  rw [factAt_listed hi', factAt_listed (hlength.symm ▸ hi), hsame]

end Order

/-- The resolved classes are a sound fixpoint: the seeds are kept, a phi has the
class of all its inputs or none, and it has one only if the values that reach it
have it. In whatever order the values are listed, given the work it takes, the
same classes come out. -/
theorem phi_provenance_sound_fixpoint (values resolved : List (Option OptProvenance))
    (phiInputs : Nat → Option (List Nat)) (budget left : ProvenanceBudget)
    (hphis : ∀ i < values.length, phiInputs i ≠ none → values[i]? = some none)
    (h : resolveOptPhiProvenance values phiInputs budget = .ok (resolved, left)) :
    Resolved values phiInputs resolved ∧
    ∀ (σ : Equiv.Perm Nat) (values' : List (Option OptProvenance))
      (phiInputs' : Nat → Option (List Nat)), Relisted σ values values' phiInputs phiInputs' →
      (∀ budget' resolved' left',
        resolveOptPhiProvenance values' phiInputs' budget' = .ok (resolved', left') →
          ∀ i < values.length, resolved'[σ i]? = resolved[i]?) ∧
      ∀ budget' : ProvenanceBudget, budget'.control = none →
        (2 * values'.length + 1) * roundCost values'.length phiInputs' ≤ budget'.work →
          ∃ resolved' left',
            resolveOptPhiProvenance values' phiInputs' budget' = .ok (resolved', left') := by
  obtain ⟨hlength, hlisted, hresolves⟩ := resolve_resolves h
  refine ⟨resolved_of_resolves hlength hlisted hresolves hphis, fun σ values' phiInputs' hσ => ?_⟩
  refine ⟨fun budget' resolved' left' h' i hi => hσ.same h h' hi, fun budget' hcontrol hwork => ?_⟩
  obtain ⟨⟨resolved', left'⟩, h'⟩ := resolve_total (hσ.listed hlisted) hcontrol hwork
  exact ⟨resolved', left', h'⟩

/-- Value 0 is an argument; 1 and 2 are the phis of a loop it enters, 3 is a phi
that only reads itself, and 4 joins the two loops. -/
def loopInputs : Nat → Option (List Nat)
  | 1 => some [0, 2]
  | 2 => some [1]
  | 3 => some [3]
  | 4 => some [2, 3]
  | _ => none

theorem loopInputs_resolved :
    resolveOptPhiProvenance [some (.argument 0), none, none, none, none] loopInputs ⟨100, none⟩ =
        .ok ([some (.argument 0), some (.argument 0), some (.argument 0), some .unknown,
          some .unknown], ⟨46, none⟩) ∧
    Resolved [some (.argument 0), none, none, none, none] loopInputs
      [some (.argument 0), some (.argument 0), some (.argument 0), some .unknown,
        some .unknown] :=
  ⟨rfl, (phi_provenance_sound_fixpoint _ _ loopInputs ⟨100, none⟩ ⟨46, none⟩
    (by decide) rfl).1⟩

end Provenance

end QuickJit
