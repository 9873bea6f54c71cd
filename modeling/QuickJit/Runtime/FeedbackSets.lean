import QuickJit.Runtime.FeedbackEvidence

/-
  A snapshot as a function of the observed sets.

  `Describes` says what every cell of a snapshot shows, from the observations
  of the cell alone: the state by their number (`stateOf`), a composed cell the
  join of its parts, and the lists exactly the observed values while there are
  at most `limit` (`Listed`). Since all this is about sets, two histories with
  the same observations give snapshots that differ in the order inside lists
  only (`Similar`), which the queries of the compiler do not see.
-/

namespace QuickJit

variable {call : CallEntry} {e : CallSignatureEntry} {events : List BranchEvent}
  {first : List ObservedType} {states : List State}

namespace Feedback

/-! ## States by number -/

section Values

variable {α : Type} [DecidableEq α]

/-- The state of a cell that has seen the values. -/
def stateOf (limit : Nat) (values : List α) : State :=
  if limit < values.toFinset.card then .megamorphic
  else if values.toFinset.card = 1 then .monomorphic else .polymorphic

/-- What a cell lists: the values, each once, or nothing if there are too many. -/
structure Listed (limit : Nat) (values listed : List α) : Prop where
  exact : values.toFinset.card ≤ limit → listed.Nodup ∧ ∀ a, a ∈ listed ↔ a ∈ values
  many : limit < values.toFinset.card → listed = []

variable {limit : Nat} {values values' listed listed' : List α} {s : BoundedSet α}

theorem cellState_eq (h : s.Holds limit values) : cellState s = stateOf limit values := by
  unfold cellState stateOf
  cases hmega : s.megamorphic with
  | true => rw [if_pos (h.megamorphic_iff.mp hmega), if_pos rfl]
  | false =>
    have hle : ¬limit < values.toFinset.card := fun hlt => by
      rw [h.megamorphic_iff.mpr hlt] at hmega
      cases hmega
    rw [if_neg hle, h.length_eq hmega, if_neg Bool.false_ne_true]

theorem listed_of_holds (h : s.Holds limit values) : Listed limit values s.observations := by
  refine ⟨fun hle => ⟨h.nodup, h.mem_iff ?_⟩, fun hlt => h.forgets (h.megamorphic_iff.mpr hlt)⟩
  refine Bool.eq_false_iff.mpr fun hmega => ?_
  exact absurd (h.megamorphic_iff.mp hmega) (Nat.not_lt.mpr hle)

theorem toFinset_congr (hset : SameSet values values') : values.toFinset = values'.toFinset := by
  ext a
  simpa using hset a

theorem stateOf_congr (limit : Nat) (hset : SameSet values values') :
    stateOf limit values = stateOf limit values' := by
  rw [stateOf, stateOf, toFinset_congr hset]

/-- The same values are listed in another order at most. -/
theorem Listed.perm (h : Listed limit values listed) (h' : Listed limit values' listed')
    (hset : SameSet values values') : listed.Perm listed' := by
  have hcard := congrArg Finset.card (toFinset_congr hset)
  rcases Nat.lt_or_ge limit values.toFinset.card with hlt | hle
  · rw [h.many hlt, h'.many (hcard ▸ hlt)]
  · obtain ⟨hnodup, hmem⟩ := h.exact hle
    obtain ⟨hnodup', hmem'⟩ := h'.exact (hcard ▸ hle)
    refine (List.perm_ext_iff_of_nodup hnodup hnodup').mpr fun a => ?_
    rw [hmem a, hset a, hmem' a]

theorem stateOf_monomorphic : stateOf limit values = .monomorphic ↔
    values.toFinset.card ≤ limit ∧ values.toFinset.card = 1 := by
  unfold stateOf
  split
  case isTrue h => exact ⟨nofun, fun h' => absurd h'.1 (Nat.not_le.mpr h)⟩
  case isFalse h =>
    split
    case isTrue h' => exact ⟨fun _ => ⟨Nat.not_lt.mp h, h'⟩, fun _ => rfl⟩
    case isFalse h' => exact ⟨nofun, fun h'' => absurd h''.2 h'⟩

/-- One listed value is the only one seen. -/
theorem Listed.single_eq (h : Listed limit values listed) (hlimit : 0 < limit) (hne : values ≠ [])
    (a : α) : single listed = some a ↔ ∀ b ∈ values, b = a := by
  obtain ⟨first, hfirst⟩ := List.exists_mem_of_ne_nil values hne
  constructor
  · intro hsingle b hb
    obtain rfl : listed = [a] := by
      unfold single at hsingle
      split at hsingle
      · cases hsingle
        rfl
      · cases hsingle
    rcases Nat.lt_or_ge limit values.toFinset.card with hlt | hle
    · cases h.many hlt
    · exact List.mem_singleton.mp (((h.exact hle).2 b).mpr hb)
  · intro hall
    have hset : values.toFinset = {a} := by
      ext b
      rw [List.mem_toFinset, Finset.mem_singleton]
      exact ⟨hall b, fun hb => by rw [hb, ← hall first hfirst]; exact hfirst⟩
    have hcard : values.toFinset.card = 1 := by rw [hset, Finset.card_singleton]
    obtain ⟨hnodup, hmem⟩ := h.exact (hcard ▸ hlimit)
    have hperm : listed.Perm [a] := by
      refine (List.perm_ext_iff_of_nodup hnodup (List.nodup_singleton a)).mpr fun b => ?_
      rw [hmem b, List.mem_singleton, ← List.mem_toFinset, hset, Finset.mem_singleton]
    rw [List.perm_singleton.mp hperm]
    rfl

end Values

/-- The state of a cell composed of parts. -/
def joined (states : List State) : State :=
  if .megamorphic ∈ states then .megamorphic
  else if .polymorphic ∈ states then .polymorphic else .monomorphic

theorem joined_megamorphic :
    joined states = .megamorphic ↔ State.megamorphic ∈ states := by
  unfold joined
  split
  case isTrue h => exact ⟨fun _ => h, fun _ => rfl⟩
  case isFalse h => split <;> exact ⟨nofun, fun h' => absurd h' h⟩

theorem joined_monomorphic :
    joined states = .monomorphic ↔ ∀ state ∈ states, state = .monomorphic := by
  unfold joined
  split
  case isTrue h => exact ⟨nofun, fun h' => absurd (h' _ h) nofun⟩
  case isFalse hmega =>
    split
    case isTrue h => exact ⟨nofun, fun h' => absurd (h' _ h) nofun⟩
    case isFalse hpoly =>
      refine ⟨fun _ state hstate => ?_, fun _ => rfl⟩
      cases state with
      | monomorphic => rfl
      | polymorphic => exact absurd hstate hpoly
      | megamorphic => exact absurd hstate hmega

/-- How the table computes a join. -/
theorem ite_eq_joined {megamorphic polymorphic : Prop} [Decidable megamorphic]
    [Decidable polymorphic] (hmega : megamorphic ↔ .megamorphic ∈ states)
    (hpoly : ¬megamorphic → (polymorphic ↔ .polymorphic ∈ states)) :
    (if megamorphic then State.megamorphic else if polymorphic then .polymorphic
      else .monomorphic) = joined states := by
  unfold joined
  by_cases h : megamorphic
  · rw [if_pos h, if_pos (hmega.mp h)]
  · rw [if_neg h, if_neg (mt hmega.mpr h)]
    simp only [hpoly h]

section CellStates

variable {α : Type} {s : BoundedSet α} {cells : List (BoundedSet α)}

theorem cellState_polymorphic (hmega : ¬s.megamorphic = true) :
    cellState s = .polymorphic ↔ s.observations.length ≠ 1 := by
  rw [cellState, if_neg hmega]
  split
  case isTrue h => exact ⟨nofun, fun h' => absurd h h'⟩
  case isFalse h => exact ⟨fun _ => h, fun _ => rfl⟩

theorem megamorphic_mem_states :
    State.megamorphic ∈ cells.map cellState ↔ cells.any BoundedSet.megamorphic = true := by
  simp only [List.mem_map, List.any_eq_true, cellState_megamorphic]

theorem polymorphic_mem_states (hmega : ¬cells.any BoundedSet.megamorphic = true) :
    State.polymorphic ∈ cells.map cellState ↔
      cells.any (fun slot => decide (slot.observations.length ≠ 1)) = true := by
  have hnone : ∀ s ∈ cells, ¬s.megamorphic = true := fun s hs h =>
    hmega (List.any_eq_true.mpr ⟨s, hs, h⟩)
  simp only [List.mem_map, List.any_eq_true, decide_eq_true_iff]
  refine exists_congr fun s => and_congr_right fun hs => cellState_polymorphic (hnone s hs)

/-- `combined_state` is the join over cells that have seen something. -/
theorem combinedState_eq {cells : List Entry} {more : Bool}
    (hseen : ∀ e ∈ cells, ¬e.megamorphic = true → e.observations ≠ []) :
    combinedState cells more =
      joined (cells.map cellState ++ [if more then .polymorphic else .monomorphic]) := by
  refine ite_eq_joined ?_ fun hmega => ?_
  · rw [List.mem_append, megamorphic_mem_states]
    cases more <;> simp
  · have hlengths : (cells.any fun e => decide (1 < e.observations.length)) =
        cells.any fun e => decide (e.observations.length ≠ 1) := by
      refine Bool.eq_iff_iff.mpr ?_
      simp only [List.any_eq_true, decide_eq_true_iff]
      refine exists_congr fun e => and_congr_right fun he => ?_
      have hpos := List.length_pos_of_ne_nil
        (hseen e he fun h => hmega (List.any_eq_true.mpr ⟨e, he, h⟩))
      omega
    rw [List.mem_append, polymorphic_mem_states hmega, hlengths]
    cases more <;> simp

end CellStates

/-! ## Rows of argument cells -/

/-- The length of the longest row. -/
def width (rows : List (List ObservedType)) : Nat := (rows.map List.length).foldr max 0

/-- What was seen at one position. -/
def slotValues (rows : List (List ObservedType)) (i : Nat) : List ObservedType :=
  rows.filterMap fun row => row[i]?

def slotStates (limit : Nat) (rows : List (List ObservedType)) : List State :=
  (List.range (width rows)).map fun i => stateOf limit (slotValues rows i)

/-- A list of values for each position. -/
structure SlotsListed (limit : Nat) (rows listed : List (List ObservedType)) : Prop where
  length_eq : listed.length = width rows
  slot : ∀ i l, listed[i]? = some l → Listed limit (slotValues rows i) l

section Rows

variable {limit : Nat} {rows rows' : List (List ObservedType)} {slots : List Entry}

theorem lt_width {n : Nat} : ∀ {rows : List (List ObservedType)},
    n < width rows ↔ ∃ row ∈ rows, n < row.length
  | [] => by simp [width]
  | row :: rows => by
    have ih : n < (rows.map List.length).foldr max 0 ↔ ∃ row ∈ rows, n < row.length := lt_width
    rw [width, List.map_cons, List.foldr_cons, lt_max_iff, List.exists_mem_cons_iff, ih]

theorem width_eq (h : ∀ n, n < width rows ↔ n < slots.length) : slots.length = width rows := by
  have h₁ := h (width rows)
  have h₂ := h slots.length
  omega

section

variable (h : BoundedSet.SlotsHold limit rows slots)

include h

theorem slots_length : slots.length = width rows :=
  width_eq fun n => lt_width.trans (h.lt_length_iff n).symm

theorem slots_states :
    slots.map cellState = slotStates limit rows := by
  refine List.ext_getElem? fun i => ?_
  rw [slotStates, List.getElem?_map, List.getElem?_map]
  cases hi : slots[i]? with
  | none =>
    have hle : (List.range (width rows))[i]? = none := by
      rw [List.getElem?_eq_none_iff, List.length_range, ← slots_length h]
      exact List.getElem?_eq_none_iff.mp hi
    rw [hle]
    rfl
  | some s =>
    have hlt : i < width rows := slots_length h ▸ (List.getElem?_eq_some_iff.mp hi).1
    rw [List.getElem?_range hlt]
    exact congrArg some (cellState_eq (h.slot i s hi))

theorem slots_listed :
    SlotsListed limit rows (slots.map BoundedSet.observations) := by
  refine ⟨by rw [List.length_map, slots_length h], fun i l hl => ?_⟩
  rw [List.getElem?_map] at hl
  obtain ⟨s, hs, rfl⟩ := Option.map_eq_some_iff.mp hl
  exact listed_of_holds (h.slot i s hs)

end

theorem slotValues_congr (hset : SameSet rows rows') (i : Nat) :
    SameSet (slotValues rows i) (slotValues rows' i) := fun a => by
  simp only [slotValues, List.mem_filterMap, hset _]

theorem width_congr (hset : SameSet rows rows') : width rows = width rows' := by
  have h : ∀ n, n < width rows ↔ n < width rows' := fun n => by
    simp only [lt_width, hset _]
  have h₁ := h (width rows)
  have h₂ := h (width rows')
  omega

theorem slotStates_congr (limit : Nat) (hset : SameSet rows rows') :
    slotStates limit rows = slotStates limit rows' := by
  rw [slotStates, slotStates, width_congr hset]
  exact List.map_congr_left fun i _ => stateOf_congr limit (slotValues_congr hset i)

theorem SlotsListed.perm {listed listed' : List (List ObservedType)}
    (h : SlotsListed limit rows listed) (h' : SlotsListed limit rows' listed')
    (hset : SameSet rows rows') : List.Forall₂ List.Perm listed listed' := by
  refine List.forall₂_iff_get.mpr ⟨?_, fun i hi hi' => ?_⟩
  · rw [h.length_eq, h'.length_eq, width_congr hset]
  · exact (h.slot i _ (List.getElem?_eq_getElem hi)).perm
      (h'.slot i _ (List.getElem?_eq_getElem hi')) (slotValues_congr hset i)

/-- Rows that show one length and one value at each position are all the same. -/
theorem rows_eq_of_monomorphic {row : List ObservedType}
    (harities : stateOf limit (rows.map List.length) = .monomorphic)
    (hslots : ∀ state ∈ slotStates limit rows, state = .monomorphic) (hfirst : first ∈ rows)
    (hrow : row ∈ rows) : row = first := by
  have hone : ∀ {β : Type} [DecidableEq β] {values : List β} {a b : β},
      stateOf limit values = .monomorphic → a ∈ values → b ∈ values → a = b := by
    intro β _ values a b hmono ha hb
    exact Finset.card_le_one.mp (stateOf_monomorphic.mp hmono).2.le a (List.mem_toFinset.mpr ha) b
      (List.mem_toFinset.mpr hb)
  have hlength : row.length = first.length :=
    hone harities (List.mem_map_of_mem hrow) (List.mem_map_of_mem hfirst)
  refine List.ext_getElem hlength fun i hi hi' => ?_
  have hmono : stateOf limit (slotValues rows i) = .monomorphic :=
    hslots _ (List.mem_map.mpr ⟨i, List.mem_range.mpr (lt_width.mpr ⟨row, hrow, hi⟩), rfl⟩)
  exact hone hmono (List.mem_filterMap.mpr ⟨row, hrow, List.getElem?_eq_getElem hi⟩)
    (List.mem_filterMap.mpr ⟨first, hfirst, List.getElem?_eq_getElem hi'⟩)

/-- And the other way round. -/
theorem monomorphic_of_rows_eq (hlimit : 0 < limit) (hfirst : first ∈ rows)
    (hall : ∀ row ∈ rows, row = first) :
    stateOf limit (rows.map List.length) = .monomorphic ∧
      ∀ state ∈ slotStates limit rows, state = .monomorphic := by
  have hone : ∀ {β : Type} [DecidableEq β] {values : List β} {a : β}, a ∈ values →
      (∀ b ∈ values, b = a) → stateOf limit values = .monomorphic := by
    intro β _ values a ha hvalues
    have hset : values.toFinset = {a} := by
      ext b
      rw [List.mem_toFinset, Finset.mem_singleton]
      exact ⟨hvalues b, fun hb => hb ▸ ha⟩
    rw [stateOf_monomorphic, hset, Finset.card_singleton]
    exact ⟨hlimit, rfl⟩
  refine ⟨hone (List.mem_map_of_mem hfirst) fun n hn => ?_, fun state hstate => ?_⟩
  · obtain ⟨row, hrow, rfl⟩ := List.mem_map.mp hn
    rw [hall row hrow]
  · obtain ⟨i, hi, rfl⟩ := List.mem_map.mp hstate
    obtain ⟨row, hrow, hlt⟩ := lt_width.mp (List.mem_range.mp hi)
    refine hone (List.mem_filterMap.mpr ⟨row, hrow, List.getElem?_eq_getElem hlt⟩) fun b hb => ?_
    obtain ⟨row', hrow', hb'⟩ := List.mem_filterMap.mp hb
    rw [hall row' hrow', ← hall row hrow, List.getElem?_eq_getElem hlt] at hb'
    exact (Option.some.inj hb').symm

/-- The cells of one repeated row hold one value each. -/
theorem slots_of_rows_eq (h : BoundedSet.SlotsHold limit rows slots) (hlimit : 0 < limit)
    (hfirst : first ∈ rows) (hall : ∀ row ∈ rows, row = first) :
    (slots.filterMap fun slot => slot.observations.head?) = first := by
  have hslots : slots.map BoundedSet.observations = first.map fun a => [a] := by
    refine List.ext_getElem? fun i => ?_
    rw [List.getElem?_map, List.getElem?_map]
    have hlength : slots.length = first.length := by
      have hlt : ∀ n, n < slots.length ↔ n < first.length := by
        intro n
        refine (h.lt_length_iff n).trans ⟨?_, fun hn => ⟨first, hfirst, hn⟩⟩
        rintro ⟨row, hrow, hn⟩
        exact hall row hrow ▸ hn
      have h₁ := hlt slots.length
      have h₂ := hlt first.length
      omega
    cases hi : slots[i]? with
    | none =>
      rw [List.getElem?_eq_none (hlength ▸ List.getElem?_eq_none_iff.mp hi)]
      rfl
    | some s =>
      have hlt : i < first.length := hlength ▸ (List.getElem?_eq_some_iff.mp hi).1
      have hget := List.getElem?_eq_getElem hlt
      have hmem : first[i] ∈ slotValues rows i := List.mem_filterMap.mpr ⟨first, hfirst, hget⟩
      have hsingle : single s.observations = some first[i] := by
        refine ((listed_of_holds (h.slot i s hi)).single_eq hlimit (List.ne_nil_of_mem hmem) _).mpr
          fun b hb => ?_
        obtain ⟨row, hrow, hb'⟩ := List.mem_filterMap.mp hb
        rw [hall row hrow, hget] at hb'
        exact (Option.some.inj hb').symm
      rw [hget, Option.map_some, Option.map_some]
      unfold single at hsingle
      split at hsingle
      case h_1 a hobservations => rw [hobservations, Option.some.inj hsingle]
      case h_2 => cases hsingle
  have hheads : (slots.map BoundedSet.observations).filterMap List.head? = first := by
    rw [hslots, List.filterMap_map]
    exact List.filterMap_some
  rwa [List.filterMap_map] at hheads

end Rows

/-! ## What the cells of a snapshot show -/

structure TypeCell (limit : Nat) (values : List ObservedType) (c : SnapshotEntry) : Prop where
  state : c.state = stateOf limit values
  observations : Listed limit values c.observations

structure CallCell (limit : Nat) (rows : List (List ObservedType)) (c : CallSnapshot) : Prop where
  state : c.state = joined (stateOf limit (rows.map List.length) :: slotStates limit rows)
  arguments : SlotsListed limit rows c.arguments
  stableArity : ∀ n, c.stableArity = some n ↔ ∀ row ∈ rows, row.length = n
  stableTypes : ∀ types, c.stableTypes = some types ↔ ∀ row ∈ rows, row = types

structure BinaryCell (limit : Nat) (events : List BinaryEvent) (c : BinarySnapshot) : Prop where
  state : c.state = joined [stateOf limit (events.map BinaryEvent.lhs),
    stateOf limit (events.map BinaryEvent.rhs), stateOf limit (events.map BinaryEvent.result)]
  lhs : Listed limit (events.map BinaryEvent.lhs) c.lhs
  rhs : Listed limit (events.map BinaryEvent.rhs) c.rhs
  result : Listed limit (events.map BinaryEvent.result) c.result
  flags : BitsOf BinaryEvent.flags events c.flags

structure ConversionCell (limit : Nat) (events : List ConversionEvent) (c : ConversionSnapshot) :
    Prop where
  state : c.state = joined [stateOf limit (events.map ConversionEvent.operand),
    stateOf limit (events.map ConversionEvent.result)]
  operand : Listed limit (events.map ConversionEvent.operand) c.operand
  result : Listed limit (events.map ConversionEvent.result) c.result

/-- A branch is polymorphic when it has gone both ways. -/
structure BranchCell (limit : Nat) (events : List BranchEvent) (c : BranchSnapshot) : Prop where
  state : c.state = joined [stateOf limit (events.map BranchEvent.conditionType),
    if Mixed BranchEvent.taken events then .polymorphic else .monomorphic]
  conditionTypes : Listed limit (events.map BranchEvent.conditionType) c.conditionTypes
  outcomes : BitsOf outcomeBit events c.outcomes

instance (events : List CallSignatureEvent) : Decidable (MixedCallees events) :=
  inferInstanceAs (Decidable (_ ∨ _))

/-- The state of the targets: megamorphic if an identity differs. -/
def targetsState (limit : Nat) (events : List CallSignatureEvent) : State :=
  if MixedCallees events then .megamorphic
  else stateOf limit (events.map CallSignatureEvent.callee)

structure SignatureCell (limit : Nat) (events : List CallSignatureEvent)
    (c : CallSignatureSnapshot) : Prop where
  state : c.state = joined (targetsState limit events ::
    stateOf limit (events.map fun e => e.arguments.length) ::
    stateOf limit (events.map CallSignatureEvent.result) ::
    slotStates limit (events.map CallSignatureEvent.arguments))
  targetState : c.targetState = targetsState limit events
  targets : ¬MixedCallees events → Listed limit (events.map CallSignatureEvent.callee) c.targets
  stableArity : ∀ n, c.stableArity = some n ↔ ∀ e ∈ events, e.arguments.length = n
  arguments : SlotsListed limit (events.map CallSignatureEvent.arguments) c.arguments
  results : Listed limit (events.map CallSignatureEvent.result) c.results
  identity : IdentityHolds CallSignatureEvent.calleeIdentity events c.calleeIdentity
  bytecodeIdentity :
    IdentityHolds CallSignatureEvent.calleeBytecodeIdentity events c.calleeBytecodeIdentity

section Cells

variable {limit : Nat}

theorem typeCell {values : List ObservedType} {e : Entry} (key : Key) (h : e.Holds limit values) :
    TypeCell limit values (e.snapshot key) :=
  ⟨cellState_eq h, listed_of_holds h⟩

theorem CallEntry.state_eq {rows : List (List ObservedType)} (h : CallHolds limit rows call) :
    call.state = joined (stateOf limit (rows.map List.length) :: slotStates limit rows) := by
  rw [← cellState_eq h.arities, ← slots_states h.slots]
  refine ite_eq_joined ?_ fun hmega => ?_
  · simp only [Bool.or_eq_true, List.mem_cons, megamorphic_mem_states,
      @eq_comm _ State.megamorphic, cellState_megamorphic]
  · simp only [Bool.or_eq_true, not_or] at hmega
    simp only [List.mem_cons, polymorphic_mem_states hmega.2, @eq_comm _ State.polymorphic,
      cellState_polymorphic hmega.1]

theorem callCell {rows : List (List ObservedType)} (function : FunctionKey) (hlimit : 0 < limit)
    (hne : rows ≠ []) (h : CallHolds limit rows call) :
    CallCell limit rows (call.snapshot function) := by
  refine ⟨CallEntry.state_eq h, slots_listed h.slots, fun n => ?_, fun types => ?_⟩
  · have hlengths : rows.map List.length ≠ [] := by simpa using hne
    refine ((listed_of_holds h.arities).single_eq hlimit hlengths n).trans ?_
    exact List.forall_mem_map
  · obtain ⟨first, hfirst⟩ := List.exists_mem_of_ne_nil rows hne
    have hstable : (call.snapshot function).stableTypes = if call.state = .monomorphic then
        some (call.slots.filterMap fun slot => slot.observations.head?) else none := rfl
    rw [hstable, CallEntry.state_eq h, Option.ite_none_right_eq_some, joined_monomorphic,
      List.forall_mem_cons]
    constructor
    · rintro ⟨⟨harities, hslots⟩, htypes⟩
      have hall : ∀ row ∈ rows, row = first := fun row =>
        rows_eq_of_monomorphic harities hslots hfirst
      rw [slots_of_rows_eq h.slots hlimit hfirst hall] at htypes
      exact fun row hrow => (hall row hrow).trans (Option.some.inj htypes)
    · intro hall
      have htypes : types ∈ rows := hall first hfirst ▸ hfirst
      exact ⟨monomorphic_of_rows_eq hlimit htypes hall,
        congrArg some (slots_of_rows_eq h.slots hlimit htypes hall)⟩

/-- A join is not changed by a part that is monomorphic. -/
theorem joined_append_monomorphic (states : List State) :
    joined (states ++ [.monomorphic]) = joined states := by
  simp [joined]

theorem binaryCell {events : List BinaryEvent} {e : BinaryEntry} (site : Site) (hne : events ≠ [])
    (h : BinaryHolds limit events e) : BinaryCell limit events (e.snapshot site) := by
  refine ⟨?_, listed_of_holds h.lhs, listed_of_holds h.rhs, listed_of_holds h.result, h.flags⟩
  have hmap : ∀ f : BinaryEvent → ObservedType, events.map f ≠ [] := fun f => by simpa using hne
  rw [← cellState_eq h.lhs, ← cellState_eq h.rhs, ← cellState_eq h.result]
  refine (combinedState_eq ?_).trans (joined_append_monomorphic _)
  simp only [List.forall_mem_cons, List.not_mem_nil, false_imp_iff, implies_true, and_true]
  exact ⟨h.lhs.observations_ne (hmap _), h.rhs.observations_ne (hmap _),
    h.result.observations_ne (hmap _)⟩

theorem conversionCell {events : List ConversionEvent} {e : ConversionEntry} (site : Site)
    (hne : events ≠ []) (h : ConversionHolds limit events e) :
    ConversionCell limit events (e.snapshot site) := by
  refine ⟨?_, listed_of_holds h.operand, listed_of_holds h.result⟩
  have hmap : ∀ f : ConversionEvent → ObservedType, events.map f ≠ [] := fun f => by simpa using hne
  rw [← cellState_eq h.operand, ← cellState_eq h.result]
  refine (combinedState_eq ?_).trans (joined_append_monomorphic _)
  simp only [List.forall_mem_cons, List.not_mem_nil, false_imp_iff, implies_true, and_true]
  exact ⟨h.operand.observations_ne (hmap _), h.result.observations_ne (hmap _)⟩

/-- Both bits are set if the branch went both ways. -/
theorem outcomes_eq_three {outcomes : BitVec 8} (h : BitsOf outcomeBit events outcomes) :
    outcomes = 3 ↔ Mixed BranchEvent.taken events := by
  have hbit : ∀ (b : BranchEvent) (i : Nat), (outcomeBit b).getLsbD i = true ↔
      (b.taken = true ∧ i = 0) ∨ (b.taken = false ∧ i = 1) := by
    intro b i
    unfold outcomeBit
    by_cases hi : i < 8
    · generalize b.taken = taken
      revert i taken
      decide
    · rw [BitVec.getLsbD_of_ge _ _ (Nat.not_lt.mp hi)]
      simp only [Bool.false_eq_true, false_iff]
      omega
  have hthree : ∀ i, (3#8).getLsbD i = true ↔ i = 0 ∨ i = 1 := by
    intro i
    by_cases hi : i < 8
    · revert i
      decide
    · rw [BitVec.getLsbD_of_ge _ _ (Nat.not_lt.mp hi)]
      simp only [Bool.false_eq_true, false_iff]
      omega
  constructor
  · rintro rfl
    obtain ⟨a, ha, hbita⟩ := (h 0).mp (by decide)
    obtain ⟨b, hb, hbitb⟩ := (h 1).mp (by decide)
    have htaken : a.taken = true := by simpa using (hbit a 0).mp hbita
    have hnot : b.taken = false := by simpa using (hbit b 1).mp hbitb
    exact ⟨a, ha, b, hb, by simp [htaken, hnot]⟩
  · rintro ⟨a, ha, b, hb, hne⟩
    have hboth : ∀ taken : Bool, ∃ c ∈ events, c.taken = taken := by
      intro taken
      by_cases htaken : a.taken = taken
      · exact ⟨a, ha, htaken⟩
      · exact ⟨b, hb, by revert hne htaken; cases a.taken <;> cases b.taken <;> cases taken <;> simp⟩
    have hbits : BitsOf outcomeBit events 3#8 := by
      refine fun i => (hthree i).trans ⟨?_, ?_⟩
      · rintro (rfl | rfl)
        · obtain ⟨c, hc, htaken⟩ := hboth true
          exact ⟨c, hc, (hbit c 0).mpr (.inl ⟨htaken, rfl⟩)⟩
        · obtain ⟨c, hc, htaken⟩ := hboth false
          exact ⟨c, hc, (hbit c 1).mpr (.inr ⟨htaken, rfl⟩)⟩
      · rintro ⟨c, -, hc⟩
        exact ((hbit c i).mp hc).imp (·.2) (·.2)
    exact h.unique hbits fun _ => Iff.rfl

theorem branchCell {e : BranchEntry} (site : Site) (hne : events ≠ [])
    (h : BranchHolds limit events e) : BranchCell limit events (e.snapshot site) := by
  refine ⟨?_, listed_of_holds h.conditionTypes, h.outcomes⟩
  rw [← cellState_eq h.conditionTypes]
  refine (combinedState_eq ?_).trans ?_
  · simp only [List.forall_mem_cons, List.not_mem_nil, false_imp_iff, implies_true, and_true]
    exact h.conditionTypes.observations_ne (by simpa using hne)
  · simp only [decide_eq_true_iff, outcomes_eq_three h.outcomes]
    rfl

theorem targetState_eq {events : List CallSignatureEvent} (h : SignatureHolds limit events e) :
    e.targetState = targetsState limit events := by
  unfold CallSignatureEntry.targetState targetsState
  split
  case isTrue hmixed => exact cellState_megamorphic.mpr (h.mixed hmixed)
  case isFalse hmixed => exact cellState_eq (h.targets hmixed)

theorem CallSignatureEntry.state_eq (e : CallSignatureEntry) :
    e.state = joined (cellState e.targets :: cellState e.arities :: cellState e.results ::
      e.arguments.map cellState) := by
  refine ite_eq_joined ?_ fun hmega => ?_
  · simp only [Bool.or_eq_true, List.mem_cons, megamorphic_mem_states, or_assoc,
      @eq_comm _ State.megamorphic, cellState_megamorphic]
  · simp only [Bool.or_eq_true, not_or] at hmega
    obtain ⟨⟨⟨htargets, harities⟩, hresults⟩, harguments⟩ := hmega
    simp only [List.mem_cons, polymorphic_mem_states harguments, @eq_comm _ State.polymorphic,
      cellState_polymorphic htargets, cellState_polymorphic harities, cellState_polymorphic hresults]

theorem signatureCell {events : List CallSignatureEvent} (site : Site) (hlimit : 0 < limit)
    (hne : events ≠ []) (h : SignatureHolds limit events e) :
    SignatureCell limit events (e.snapshot site) := by
  refine ⟨?_, targetState_eq h, fun hmixed => listed_of_holds (h.targets hmixed), fun n => ?_,
    slots_listed h.arguments, listed_of_holds h.results, h.identity, h.bytecodeIdentity⟩
  · refine e.state_eq.trans ?_
    rw [← targetState_eq h, ← cellState_eq h.arities, ← cellState_eq h.results,
      ← slots_states h.arguments]
    rfl
  · have hlengths : (events.map fun c => c.arguments.length) ≠ [] := by simpa using hne
    exact ((listed_of_holds h.arities).single_eq hlimit hlengths n).trans List.forall_mem_map

end Cells

end Feedback

end QuickJit
