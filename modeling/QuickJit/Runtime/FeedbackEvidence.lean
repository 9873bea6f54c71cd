import QuickJit.Runtime.FeedbackVersions

/-
  What a feedback table knows after a history of observations.

  A cell is made of the observations that concern it since its function was
  last forgotten (`seen`). For each kind of cell a relation says what it holds
  after some observations: `BoundedSet.Holds` for a set of types, and
  `CallHolds`, `BinaryHolds` and so on for the cells composed of several. None
  of them depends on the order or the number of the observations, an array
  site's access apart. `Records` is the invariant of whole histories; it covers
  the two memos, since they only answer observations that are in the history.

  Histories list what happened with the newest event first.
-/

namespace QuickJit

open BoundedSet

namespace Feedback

/-! ## Histories -/

/-- What an operation reports. -/
inductive Event where
  | call (function : FunctionKey) (arguments : List ObservedType)
  | type (key : Key) (observation : ObservedType)
  | binary (site : Site) (seen : BinaryEvent)
  | conversion (site : Site) (seen : ConversionEvent)
  | branch (site : Site) (seen : BranchEvent)
  | signature (site : Site) (seen : CallSignatureEvent)
  | array (site : Site) (seen : ArrayEvent)
  | forget (function : FunctionKey)

variable {e : Event} {function : FunctionKey} {events : List Event} {capacity limit w : Nat}
  {α : Type}

/-- A return is a type observation, a signature without identities has identity
zero, and a malformed array observation reports nothing. -/
def Op.event : Op → Option Event
  | .call function arguments => some (.call function arguments)
  | .exit site result => some (.type ⟨site.function, site.pc, .exit⟩ result)
  | .type key observation => some (.type key observation)
  | .binary site seen => some (.binary site seen)
  | .conversion site seen => some (.conversion site seen)
  | .branch site seen => some (.branch site seen)
  | .callSignature site callee arguments result =>
    some (.signature site ⟨callee, 0, 0, arguments, result⟩)
  | .callSignatureWithIdentity site seen => some (.signature site seen)
  | .array site seen => some (.array site seen)
  | .arrayRaw site mode flags => (decodeArray mode flags).map (.array site)
  | .forget function => some (.forget function)

/-- What some operations have reported, the newest first. -/
def history (ops : List Op) : List Event := (ops.filterMap Op.event).reverse

def Table.apply (t : Table) : Event → Table
  | .call function arguments => t.observeCall function arguments
  | .type key observation => (t.observeType key observation).1
  | .binary site seen => (t.observeBinary site seen).1
  | .conversion site seen => (t.observeConversion site seen).1
  | .branch site seen => (t.observeBranch site seen).1
  | .signature site seen => (t.observeCallSignatureWithIdentity site seen).1
  | .array site seen => (t.observeArray site seen).1
  | .forget function => t.forgetFunction function

/-- The same without the memos of the last call and the recent types. -/
def Table.applyPlain (t : Table) : Event → Table
  | .call function arguments => t.recordCall function arguments
  | .type key observation => (t.recordType key observation).1
  | e => t.apply e

/-- The table after some operations, each carried out without the memos. -/
def Table.runPlain (t : Table) (ops : List Op) : Table :=
  (history ops).foldr (fun e t => t.applyPlain e) t

theorem step_event (t : Table) (op : Op) :
    (t.step op).1 = match op.event with
      | some e => t.apply e
      | none => t := by
  cases op with
  | arrayRaw site mode flags =>
    simp only [Table.step, Table.observeArrayRaw, Op.event]
    cases decodeArray mode flags <;> rfl
  | _ => rfl

theorem run_history (t : Table) (ops : List Op) :
    t.run ops = (history ops).foldr (fun e t => t.apply e) t := by
  rw [history, List.foldr_reverse]
  induction ops generalizing t with
  | nil => rfl
  | cons op ops ih =>
    rw [Table.run, List.foldl_cons, ← Table.run, ih, step_event]
    cases hop : op.event with
    | none => rw [List.filterMap_cons_none hop]
    | some e => rw [List.filterMap_cons_some hop, List.foldl_cons]

def Event.forgets (function : FunctionKey) : Event → Bool
  | .forget f => f = function
  | _ => false

/-- What the events since `function` was last forgotten say, the newest first. -/
def seen {α : Type} (function : FunctionKey) (pick : Event → Option α) : List Event → List α
  | [] => []
  | e :: earlier =>
    if e.forgets function then []
    else match pick e with
      | some a => a :: seen function pick earlier
      | none => seen function pick earlier

def typeOf (key : Key) : Event → Option ObservedType
  | .type k observation => if k = key then some observation else none
  | _ => none

def callOf (function : FunctionKey) : Event → Option (List ObservedType)
  | .call f arguments => if f = function then some arguments else none
  | _ => none

def binaryOf (site : Site) : Event → Option BinaryEvent
  | .binary s seen => if s = site then some seen else none
  | _ => none

def conversionOf (site : Site) : Event → Option ConversionEvent
  | .conversion s seen => if s = site then some seen else none
  | _ => none

def branchOf (site : Site) : Event → Option BranchEvent
  | .branch s seen => if s = site then some seen else none
  | _ => none

def signatureOf (site : Site) : Event → Option CallSignatureEvent
  | .signature s seen => if s = site then some seen else none
  | _ => none

def arrayOf (site : Site) : Event → Option ArrayEvent
  | .array s seen => if s = site then some seen else none
  | _ => none

/-- The types seen under a key since its function was last forgotten; the other
kinds of cells likewise. -/
def typesAt (events : List Event) (key : Key) : List ObservedType :=
  seen key.function (typeOf key) events

def callsAt (events : List Event) (function : FunctionKey) : List (List ObservedType) :=
  seen function (callOf function) events

def binariesAt (events : List Event) (site : Site) : List BinaryEvent :=
  seen site.function (binaryOf site) events

def conversionsAt (events : List Event) (site : Site) : List ConversionEvent :=
  seen site.function (conversionOf site) events

def branchesAt (events : List Event) (site : Site) : List BranchEvent :=
  seen site.function (branchOf site) events

def signaturesAt (events : List Event) (site : Site) : List CallSignatureEvent :=
  seen site.function (signatureOf site) events

def arraysAt (events : List Event) (site : Site) : List ArrayEvent :=
  seen site.function (arrayOf site) events

theorem seen_forget {f : FunctionKey} {pick : Event → Option α} (hpick : pick (.forget f) = none) :
    seen function pick (.forget f :: events) =
      if decide (function ≠ f) then seen function pick events else [] := by
  by_cases hf : f = function
  · simp [seen, Event.forgets, hf]
  · simp [seen, Event.forgets, hf, Ne.symm hf, hpick]

theorem mem_seen {pick : Event → Option α} {a : α} :
    ∀ {events : List Event}, a ∈ seen function pick events → ∃ e ∈ events, pick e = some a
  | [], h => by cases h
  | e :: earlier, h => by
    unfold seen at h
    split at h
    · cases h
    · cases hpick : pick e with
      | none =>
        rw [hpick] at h
        obtain ⟨e', he', hp⟩ := mem_seen h
        exact ⟨e', List.mem_cons_of_mem e he', hp⟩
      | some b =>
        rw [hpick] at h
        rcases List.mem_cons.mp h with rfl | h
        · exact ⟨e, List.mem_cons_self, hpick⟩
        · obtain ⟨e', he', hp⟩ := mem_seen h
          exact ⟨e', List.mem_cons_of_mem e he', hp⟩

/-! ## Cells and observations -/

/-- Every observation of one list is in the other. -/
def SameSet {α : Type} (l l' : List α) : Prop := ∀ a, a ∈ l ↔ a ∈ l'

theorem SameSet.map {β : Type} {l l' : List α} (h : SameSet l l') (f : α → β) :
    SameSet (l.map f) (l'.map f) := fun b => by simp only [List.mem_map, h _]

theorem SameSet.cons_mem {l : List α} {a : α} (ha : a ∈ l) : SameSet l (a :: l) := by
  intro b
  simp only [List.mem_cons]
  exact ⟨.inr, fun hb => hb.elim (fun h => h ▸ ha) id⟩

/-- What a function has been called with. -/
structure CallHolds (limit : Nat) (rows : List (List ObservedType)) (call : CallEntry) : Prop where
  arities : call.arities.Holds limit (rows.map List.length)
  slots : BoundedSet.SlotsHold limit rows call.slots

theorem CallHolds.empty (limit : Nat) : CallHolds limit [] .empty :=
  ⟨holds_empty limit, slotsHold_nil limit⟩

theorem CallHolds.observe {rows : List (List ObservedType)} {call : CallEntry}
    (h : CallHolds limit rows call) (row : List ObservedType) :
    CallHolds limit (row :: rows) (call.observe limit row) :=
  ⟨h.arities.observe row.length, h.slots.observe row⟩

theorem CallHolds.congr {rows rows' : List (List ObservedType)} {call : CallEntry}
    (h : CallHolds limit rows call) (hrows : SameSet rows rows') : CallHolds limit rows' call :=
  ⟨h.arities.congr (hrows.map _), h.slots.congr hrows⟩

/-- The bits that some of the words have. -/
def BitsOf {α : Type} {w : Nat} (bits : α → BitVec w) (l : List α) (word : BitVec w) : Prop :=
  ∀ i, word.getLsbD i = true ↔ ∃ a ∈ l, (bits a).getLsbD i = true

theorem BitsOf.nil (bits : α → BitVec w) : BitsOf bits [] 0#w := by
  simp [BitsOf]

theorem BitsOf.cons {bits : α → BitVec w} {l : List α} {word : BitVec w} (h : BitsOf bits l word)
    (a : α) : BitsOf bits (a :: l) (word ||| bits a) := by
  intro i
  rw [BitVec.getLsbD_or, Bool.or_eq_true, h i, List.exists_mem_cons_iff, or_comm]

theorem BitsOf.unique {bits : α → BitVec w} {l l' : List α} {word word' : BitVec w}
    (h : BitsOf bits l word) (h' : BitsOf bits l' word') (hset : SameSet l l') : word = word' := by
  refine BitVec.eq_of_getLsbD_eq fun i _ => Bool.eq_iff_iff.mpr ?_
  rw [h i, h' i]
  simp only [hset _]

/-- What an operation has been executed with. -/
structure BinaryHolds (limit : Nat) (events : List BinaryEvent) (e : BinaryEntry) : Prop where
  lhs : e.lhs.Holds limit (events.map BinaryEvent.lhs)
  rhs : e.rhs.Holds limit (events.map BinaryEvent.rhs)
  result : e.result.Holds limit (events.map BinaryEvent.result)
  flags : BitsOf BinaryEvent.flags events e.flags

theorem BinaryHolds.empty (limit : Nat) : BinaryHolds limit [] .empty :=
  ⟨holds_empty limit, holds_empty limit, holds_empty limit,
    BitsOf.nil _⟩

theorem BinaryHolds.observe {events : List BinaryEvent} {e : BinaryEntry}
    (h : BinaryHolds limit events e) (new : BinaryEvent) :
    BinaryHolds limit (new :: events) (e.observe limit new) :=
  ⟨h.lhs.observe new.lhs, h.rhs.observe new.rhs, h.result.observe new.result, h.flags.cons new⟩

structure ConversionHolds (limit : Nat) (events : List ConversionEvent) (e : ConversionEntry) :
    Prop where
  operand : e.operand.Holds limit (events.map ConversionEvent.operand)
  result : e.result.Holds limit (events.map ConversionEvent.result)

theorem ConversionHolds.empty (limit : Nat) : ConversionHolds limit [] .empty :=
  ⟨holds_empty limit, holds_empty limit⟩

theorem ConversionHolds.observe {events : List ConversionEvent} {e : ConversionEntry}
    (h : ConversionHolds limit events e) (new : ConversionEvent) :
    ConversionHolds limit (new :: events) (e.observe limit new) :=
  ⟨h.operand.observe new.operand, h.result.observe new.result⟩

def outcomeBit (b : BranchEvent) : BitVec 8 := if b.taken then 1 else 2

structure BranchHolds (limit : Nat) (events : List BranchEvent) (e : BranchEntry) : Prop where
  conditionTypes : e.conditionTypes.Holds limit (events.map BranchEvent.conditionType)
  outcomes : BitsOf outcomeBit events e.outcomes

theorem BranchHolds.empty (limit : Nat) : BranchHolds limit [] .empty :=
  ⟨holds_empty limit, BitsOf.nil _⟩

theorem BranchHolds.observe {events : List BranchEvent} {e : BranchEntry}
    (h : BranchHolds limit events e) (new : BranchEvent) :
    BranchHolds limit (new :: events) (e.observe limit new) :=
  ⟨h.conditionTypes.observe new.conditionType, h.outcomes.cons new⟩

/-! ## Call sites -/

/-- Two of the values differ. -/
def Mixed {α β : Type} (f : α → β) (l : List α) : Prop := ∃ a ∈ l, ∃ b ∈ l, f a ≠ f b

/-- The identity kept for a site: the common one, or zero. -/
structure IdentityHolds {α : Type} (f : α → Nat) (l : List α) (identity : Nat) : Prop where
  common : ¬Mixed f l → ∀ a ∈ l, identity = f a
  mixed : Mixed f l → identity = 0

section Identities

variable {α : Type} {f : α → Nat} {l l' : List α} {identity : Nat} {a : α}

theorem Mixed.cons (h : Mixed f l) (a : α) : Mixed f (a :: l) := by
  obtain ⟨b, hb, c, hc, hne⟩ := h
  exact ⟨b, List.mem_cons_of_mem a hb, c, List.mem_cons_of_mem a hc, hne⟩

theorem Mixed.congr (h : Mixed f l) (hset : SameSet l l') : Mixed f l' := by
  obtain ⟨b, hb, c, hc, hne⟩ := h
  exact ⟨b, (hset b).mp hb, c, (hset c).mp hc, hne⟩

/-- Another identity than the one kept mixes the site. -/
theorem IdentityHolds.mixed_of_ne (h : IdentityHolds f l identity) (hl : l ≠ [])
    (hne : identity ≠ f a) : Mixed f (a :: l) := by
  by_cases hmixed : Mixed f l
  · exact hmixed.cons a
  · obtain ⟨b, hb⟩ := List.exists_mem_of_ne_nil l hl
    refine ⟨b, List.mem_cons_of_mem a hb, a, List.mem_cons_self, ?_⟩
    rwa [← h.common hmixed b hb]

/-- The kept identity does not. -/
theorem IdentityHolds.mixed_cons (h : IdentityHolds f l identity) (heq : identity = f a)
    (hmixed : Mixed f (a :: l)) : Mixed f l := by
  by_contra hnot
  have hcommon : ∀ b ∈ a :: l, identity = f b :=
    List.forall_mem_cons.mpr ⟨heq, h.common hnot⟩
  obtain ⟨b, hb, c, hc, hne⟩ := hmixed
  exact hne ((hcommon b hb).symm.trans (hcommon c hc))

theorem IdentityHolds.observe (h : IdentityHolds f l identity) (hl : l ≠ []) (a : α) :
    IdentityHolds f (a :: l) (if identity ≠ f a then 0 else identity) := by
  by_cases heq : identity = f a
  · rw [if_neg (not_not.mpr heq)]
    refine ⟨fun hnot => ?_, fun hmixed => h.mixed (h.mixed_cons heq hmixed)⟩
    exact List.forall_mem_cons.mpr ⟨heq, h.common fun hmixed => hnot (hmixed.cons a)⟩
  · rw [if_pos heq]
    exact ⟨fun hnot => absurd (h.mixed_of_ne hl heq) hnot, fun _ => rfl⟩

theorem IdentityHolds.single (f : α → Nat) (a : α) : IdentityHolds f [a] (f a) := by
  refine ⟨fun _ b hb => by rw [List.mem_singleton.mp hb], ?_⟩
  rintro ⟨b, hb, c, hc, hne⟩
  rw [List.mem_singleton.mp hb, List.mem_singleton.mp hc] at hne
  exact absurd rfl hne

theorem IdentityHolds.unique {identity' : Nat} (h : IdentityHolds f l identity)
    (h' : IdentityHolds f l' identity') (hset : SameSet l l') (hl : l ≠ []) :
    identity = identity' := by
  by_cases hmixed : Mixed f l
  · rw [h.mixed hmixed, h'.mixed (hmixed.congr hset)]
  · obtain ⟨a, ha⟩ := List.exists_mem_of_ne_nil l hl
    have hmixed' : ¬Mixed f l' := fun hm => hmixed (hm.congr fun b => (hset b).symm)
    rw [h.common hmixed a ha, h'.common hmixed' a ((hset a).mp ha)]

end Identities

/-- Calls of the site differ in an identity. -/
def MixedCallees (events : List CallSignatureEvent) : Prop :=
  Mixed CallSignatureEvent.calleeIdentity events ∨
    Mixed CallSignatureEvent.calleeBytecodeIdentity events

/-- What a call site has seen. Its targets are megamorphic as soon as an identity
differs; what they list then depends on the order. -/
structure SignatureHolds (limit : Nat) (events : List CallSignatureEvent) (e : CallSignatureEntry) :
    Prop where
  arities : e.arities.Holds limit (events.map fun c => c.arguments.length)
  arguments : BoundedSet.SlotsHold limit (events.map CallSignatureEvent.arguments) e.arguments
  results : e.results.Holds limit (events.map CallSignatureEvent.result)
  identity : IdentityHolds CallSignatureEvent.calleeIdentity events e.calleeIdentity
  bytecodeIdentity :
    IdentityHolds CallSignatureEvent.calleeBytecodeIdentity events e.calleeBytecodeIdentity
  targets : ¬MixedCallees events → e.targets.Holds limit (events.map CallSignatureEvent.callee)
  mixed : MixedCallees events → e.targets.megamorphic = true

theorem SignatureHolds.observe {events : List CallSignatureEvent} {e : CallSignatureEntry}
    (h : SignatureHolds limit events e) (hne : events ≠ []) (new : CallSignatureEvent) :
    SignatureHolds limit (new :: events) (e.observe limit new) := by
  rw [CallSignatureEntry.observe_eq]
  refine ⟨h.arities.observe _, h.arguments.observe _, h.results.observe _,
    h.identity.observe hne new, h.bytecodeIdentity.observe hne new, fun hsame => ?_, fun hmixed => ?_⟩
  all_goals dsimp only
  · have hdiffers : ¬e.differs new := fun hdiffers =>
      hsame (hdiffers.imp (h.identity.mixed_of_ne hne) (h.bytecodeIdentity.mixed_of_ne hne))
    rw [if_neg hdiffers]
    exact (h.targets fun hmixed => hsame (hmixed.imp (·.cons new) (·.cons new))).observe new.callee
  · by_cases hdiffers : e.differs new
    · -- the targets are made megamorphic
      rw [if_pos hdiffers, BoundedSet.observe, if_pos (.inl rfl)]
    · obtain ⟨hidentity, hbytecode⟩ := not_or.mp hdiffers
      have hmega := h.mixed (hmixed.imp (h.identity.mixed_cons (not_not.mp hidentity))
        (h.bytecodeIdentity.mixed_cons (not_not.mp hbytecode)))
      rw [if_neg hdiffers, BoundedSet.observe, if_pos (.inl hmega)]
      exact hmega

theorem not_mixed_singleton {β : Type} (f : α → β) (a : α) : ¬Mixed f [a] := by
  rintro ⟨b, hb, c, hc, hne⟩
  rw [List.mem_singleton.mp hb, List.mem_singleton.mp hc] at hne
  exact hne rfl

theorem SignatureHolds.first (limit : Nat) (new : CallSignatureEvent) :
    SignatureHolds limit [new]
      ((CallSignatureEntry.empty new.calleeIdentity new.calleeBytecodeIdentity).observe limit
        new) := by
  have hobserve : (CallSignatureEntry.empty new.calleeIdentity new.calleeBytecodeIdentity).observe
      limit new = ⟨BoundedSet.empty.observe limit new.callee,
        BoundedSet.empty.observe limit new.arguments.length,
        BoundedSet.observeSlots limit [] new.arguments, BoundedSet.empty.observe limit new.result,
        new.calleeIdentity, new.calleeBytecodeIdentity⟩ := by
    rw [CallSignatureEntry.observe_eq]
    simp [CallSignatureEntry.differs, CallSignatureEntry.empty]
  have hmixed : ¬MixedCallees [new] :=
    not_or.mpr ⟨not_mixed_singleton _ new, not_mixed_singleton _ new⟩
  rw [hobserve]
  exact ⟨(holds_empty limit).observe _, (slotsHold_nil limit).observe _,
    (holds_empty limit).observe _, .single _ new, .single _ new,
    fun _ => (holds_empty limit).observe new.callee, fun h => absurd h hmixed⟩

/-! ## Array sites -/

instance : Fintype ArrayMode where
  elems := {.generic, .packed, .int32, .float64}
  complete mode := by cases mode <;> decide

/-- The mask of a set of modes. -/
def modeBits (modes : Finset ArrayMode) : BitVec 8 :=
  (if .generic ∈ modes then ArrayMode.generic.bit else 0) |||
    (if .packed ∈ modes then ArrayMode.packed.bit else 0) |||
    (if .int32 ∈ modes then ArrayMode.int32.bit else 0) |||
    if .float64 ∈ modes then ArrayMode.float64.bit else 0

theorem modeBits_insert : ∀ (mode : ArrayMode) (modes : Finset ArrayMode),
    modeBits (insert mode modes) = modeBits modes ||| mode.bit := by decide

theorem countOnes_modeBits : ∀ modes : Finset ArrayMode, countOnes (modeBits modes) = modes.card := by
  decide

instance {α β : Type} [DecidableEq β] (f : α → β) (l : List α) : Decidable (Mixed f l) :=
  inferInstanceAs (Decidable (∃ a ∈ l, ∃ b ∈ l, f a ≠ f b))

def modesOf (events : List ArrayEvent) : Finset ArrayMode :=
  (events.map ArrayEvent.mode).toFinset

def arrayState (limit : Nat) (events : List ArrayEvent) : State :=
  if Mixed ArrayEvent.access events ∨ limit < (modesOf events).card then .megamorphic
  else if 1 < (modesOf events).card then .polymorphic else .monomorphic

/-- What an array site has seen: a mask of modes, whatever its state, and the
access that came first. -/
structure ArrayHolds (limit : Nat) (events : List ArrayEvent) (e : ArrayEntry) : Prop where
  access : (events.map ArrayEvent.access).getLast? = some e.access
  modes : e.modes = modeBits (modesOf events)
  hazards : BitsOf ArrayEvent.hazards events e.hazards
  state : e.state = arrayState limit events

theorem modesOf_cons (new : ArrayEvent) (events : List ArrayEvent) :
    modesOf (new :: events) = insert new.mode (modesOf events) := by
  rw [modesOf, List.map_cons, List.toFinset_cons, modesOf]

theorem arrayState_megamorphic {events : List ArrayEvent} :
    arrayState limit events = .megamorphic ↔
      Mixed ArrayEvent.access events ∨ limit < (modesOf events).card := by
  unfold arrayState
  split
  case isTrue h => exact ⟨fun _ => h, fun _ => rfl⟩
  case isFalse h => split <;> exact ⟨nofun, fun h' => absurd h' h⟩

/-- Another access than the first mixes the site, the first one does not. -/
theorem ArrayHolds.mixed_cons {events : List ArrayEvent} {e : ArrayEntry}
    (h : ArrayHolds limit events e) (new : ArrayEvent) :
    Mixed ArrayEvent.access (new :: events) ↔
      Mixed ArrayEvent.access events ∨ e.access ≠ new.access := by
  obtain ⟨first, hfirst, haccess⟩ := List.mem_map.mp (List.mem_of_getLast? h.access)
  constructor
  · rintro ⟨a, ha, b, hb, hne⟩
    by_contra hnot
    obtain ⟨hmixed, hsame⟩ := not_or.mp hnot
    have hall : ∀ c ∈ new :: events, c.access = e.access := by
      refine List.forall_mem_cons.mpr ⟨(not_not.mp hsame).symm, fun c hc => ?_⟩
      by_contra hc'
      exact hmixed ⟨c, hc, first, hfirst, haccess.symm ▸ hc'⟩
    exact hne ((hall a ha).trans (hall b hb).symm)
  · rintro (⟨a, ha, b, hb, hne⟩ | hne)
    · exact ⟨a, List.mem_cons_of_mem new ha, b, List.mem_cons_of_mem new hb, hne⟩
    · exact ⟨first, List.mem_cons_of_mem new hfirst, new, List.mem_cons_self, haccess.symm ▸ hne⟩

theorem ArrayHolds.observe {events : List ArrayEvent} {e : ArrayEntry}
    (h : ArrayHolds limit events e) (new : ArrayEvent) :
    ArrayHolds limit (new :: events) (e.observe limit new) := by
  have hmodes : (e.observe limit new).modes = modeBits (modesOf (new :: events)) := by
    rw [modesOf_cons, modeBits_insert, ← h.modes]
    rfl
  refine ⟨?_, hmodes, h.hazards.cons new, ?_⟩
  · obtain ⟨a, ha⟩ := Option.isSome_iff_exists.mp (Option.isSome_iff_exists.mpr ⟨_, h.access⟩)
    rw [List.map_cons, List.getLast?_cons, ha]
    exact ha.symm.trans h.access
  · have hcount : countOnes (e.modes ||| new.mode.bit) = (modesOf (new :: events)).card := by
      rw [← countOnes_modeBits, ← hmodes]
      rfl
    have hcard : (modesOf events).card ≤ (modesOf (new :: events)).card := by
      rw [modesOf_cons]
      exact Finset.card_le_card (Finset.subset_insert _ _)
    have hmega : (e.state = .megamorphic ∨ e.access ≠ new.access ∨
        limit < (modesOf (new :: events)).card) ↔
        (Mixed ArrayEvent.access (new :: events) ∨ limit < (modesOf (new :: events)).card) := by
      rw [h.mixed_cons new, h.state, arrayState_megamorphic]
      constructor
      · rintro ((hmixed | hlt) | hne | hlt)
        · exact .inl (.inl hmixed)
        · exact .inr (by omega)
        · exact .inl (.inr hne)
        · exact .inr hlt
      · rintro ((hmixed | hne) | hlt)
        · exact .inl (.inl hmixed)
        · exact .inr (.inl hne)
        · exact .inr (.inr hlt)
    simp only [ArrayEntry.observe, arrayState, hcount, hmega]

theorem ArrayHolds.first (hlimit : 0 < limit) (new : ArrayEvent) :
    ArrayHolds limit [new] ((ArrayEntry.empty new.access).observe limit new) := by
  have hcard : (modesOf [new]).card = 1 := rfl
  have hmodes : ∀ mode : ArrayMode, 0#8 ||| mode.bit = modeBits {mode} ∧
      countOnes mode.bit = 1 := by decide
  refine ⟨rfl, (hmodes new.mode).1, (BitsOf.nil _).cons new, ?_⟩
  have hmixed := not_mixed_singleton ArrayEvent.access new
  simp only [ArrayEntry.observe, ArrayEntry.empty, arrayState, hcard, hmixed]
  simp [(hmodes new.mode).2, Nat.not_lt.mpr (Nat.succ_le_of_lt hlimit)]

/-! ## Whole histories -/

/-- The table is what the events make of it. -/
structure Records (events : List Event) (t : Table) : Prop where
  entries : Tracks (fun values e => BoundedSet.Holds t.diversityLimit values e) t.entries
    (typesAt events)
  calls : Tracks (CallHolds t.diversityLimit) t.calls (callsAt events)
  binaries : Tracks (BinaryHolds t.diversityLimit) t.binaries (binariesAt events)
  conversions : Tracks (ConversionHolds t.diversityLimit) t.conversions (conversionsAt events)
  branches : Tracks (BranchHolds t.diversityLimit) t.branches (branchesAt events)
  callSignatures : Tracks (SignatureHolds t.diversityLimit) t.callSignatures (signaturesAt events)
  arrays : Tracks (ArrayHolds t.arrays.diversityLimit) t.arrays.entries (arraysAt events)
  arrayLimit_pos : 0 < t.arrays.diversityLimit
  lastCall : ∀ function, t.lastCall = some function → t.lastCallArguments ∈ callsAt events function
  recentTypes : ∀ r, some r ∈ t.recentTypes → r.observation ∈ typesAt events r.key

theorem Records.new (capacity diversityLimit : Nat) :
    Records [] (.new capacity diversityLimit) where
  entries := .empty _
  calls := .empty _
  binaries := .empty _
  conversions := .empty _
  branches := .empty _
  callSignatures := .empty _
  arrays := .empty _
  arrayLimit_pos := by
    change 0 < min (max diversityLimit 1) 3
    omega
  lastCall := nofun
  recentTypes r h := by simp [Table.new] at h

/-- The cell an event is about sees it. -/
theorem seen_cons {pick : Event → Option α} {a : α} (events : List Event)
    (hforgets : e.forgets function = false) (hpick : pick e = some a) :
    seen function pick (e :: events) = a :: seen function pick events := by
  simp [seen, hforgets, hpick]

/-- Other cells do not. -/
theorem seen_skip {pick : Event → Option α} (events : List Event)
    (hforgets : e.forgets function = false) (hpick : pick e = none) :
    seen function pick (e :: events) = seen function pick events := by
  simp [seen, hforgets, hpick]

section Steps

variable {t : Table} {events : List Event}

section

variable (h : Records events t)

include h

theorem Records.binary (site : Site) (new : BinaryEvent) :
    Records (.binary site new :: events) (t.observeBinary site new).1 :=
  { h with
    binaries := h.binaries.observe .empty (BinaryEntry.observe t.diversityLimit · new)
      (fun _ hj => seen_skip events rfl (if_neg (Ne.symm hj))) (seen_cons events rfl (if_pos rfl))
      ((BinaryHolds.empty _).observe new) fun _ _ hb => hb.observe new }

theorem Records.conversion (site : Site) (new : ConversionEvent) :
    Records (.conversion site new :: events) (t.observeConversion site new).1 :=
  { h with
    conversions := h.conversions.observe .empty (ConversionEntry.observe t.diversityLimit · new)
      (fun _ hj => seen_skip events rfl (if_neg (Ne.symm hj))) (seen_cons events rfl (if_pos rfl))
      ((ConversionHolds.empty _).observe new) fun _ _ hb => hb.observe new }

theorem Records.branch (site : Site) (new : BranchEvent) :
    Records (.branch site new :: events) (t.observeBranch site new).1 :=
  { h with
    branches := h.branches.observe .empty (BranchEntry.observe t.diversityLimit · new)
      (fun _ hj => seen_skip events rfl (if_neg (Ne.symm hj))) (seen_cons events rfl (if_pos rfl))
      ((BranchHolds.empty _).observe new) fun _ _ hb => hb.observe new }

theorem Records.signature (site : Site) (new : CallSignatureEvent) :
    Records (.signature site new :: events) (t.observeCallSignatureWithIdentity site new).1 :=
  { h with
    callSignatures := h.callSignatures.observe
      (.empty new.calleeIdentity new.calleeBytecodeIdentity)
      (CallSignatureEntry.observe t.diversityLimit · new)
      (fun _ hj => seen_skip events rfl (if_neg (Ne.symm hj))) (seen_cons events rfl (if_pos rfl))
      (SignatureHolds.first _ new) fun _ hne hb => hb.observe hne new }

theorem Records.recordCall (function : FunctionKey) (arguments : List ObservedType) :
    Records (.call function arguments :: events) (t.recordCall function arguments) :=
  have hcons : callsAt (.call function arguments :: events) function =
      arguments :: callsAt events function := seen_cons events rfl (if_pos rfl)
  { h with
    calls := h.calls.observe .empty (CallEntry.observe t.diversityLimit · arguments)
      (fun _ hj => seen_skip events rfl (if_neg (Ne.symm hj))) hcons
      ((CallHolds.empty _).observe arguments) fun _ _ hb => hb.observe arguments
    lastCall := by
      rintro f ⟨⟩
      exact hcons ▸ List.mem_cons_self }

end

/-- A call that has been seen adds nothing. -/
theorem callsAt_mem {arguments : List ObservedType} (hmem : arguments ∈ callsAt events function)
    (f : FunctionKey) :
    SameSet (callsAt events f) (callsAt (.call function arguments :: events) f) := by
  by_cases hf : function = f
  · subst hf
    rw [callsAt, callsAt, seen_cons events rfl (if_pos rfl)]
    exact .cons_mem hmem
  · rw [callsAt, callsAt, seen_skip events rfl (if_neg hf)]
    exact fun _ => Iff.rfl

theorem typesAt_mem {key : Key} {observation : ObservedType}
    (hmem : observation ∈ typesAt events key) (k : Key) :
    SameSet (typesAt events k) (typesAt (.type key observation :: events) k) := by
  by_cases hk : key = k
  · subst hk
    rw [typesAt, typesAt, seen_cons events rfl (if_pos rfl)]
    exact .cons_mem hmem
  · rw [typesAt, typesAt, seen_skip events rfl (if_neg hk)]
    exact fun _ => Iff.rfl

section

variable (h : Records events t)

include h

theorem Records.call (function : FunctionKey) (arguments : List ObservedType) :
    Records (.call function arguments :: events) (t.observeCall function arguments) := by
  unfold Table.observeCall
  split
  case isFalse => exact h.recordCall function arguments
  case isTrue hlast =>
    -- the arguments are those of the last call
    have hset := callsAt_mem (hlast.2 ▸ h.lastCall function hlast.1)
    exact { h with
      calls := h.calls.congr hset fun f _ hR => hR.congr (hset f)
      lastCall := fun f hf => (hset f _).mp (h.lastCall f hf) }

/-- A key that is found or fits is recorded. -/
theorem Records.recordType (key : Key) (observation : ObservedType)
    (hfits : typesAt events key = [] → t.entries.entries.length < t.capacity) :
    Records (.type key observation :: events) (t.recordType key observation).1 := by
  have hcons : typesAt (.type key observation :: events) key =
      observation :: typesAt events key := seen_cons events rfl (if_pos rfl)
  have hskip : ∀ k, k ≠ key → typesAt (.type key observation :: events) k = typesAt events k :=
    fun _ hk => seen_skip events rfl (if_neg (Ne.symm hk))
  have hset : ∀ k o, o ∈ typesAt events k → o ∈ typesAt (.type key observation :: events) k := by
    intro k o ho
    by_cases hk : k = key
    · subst hk
      exact hcons ▸ List.mem_cons_of_mem _ ho
    · rwa [hskip k hk]
  have hrecord : ∀ entry before, (t.entries.get? key).getD .empty = entry →
      Records (.type key observation :: events)
        (t.recordEntry key entry before observation).1 := by
    rintro entry before rfl
    exact { h with
      entries := h.entries.observe .empty (BoundedSet.observe t.diversityLimit · observation)
        hskip hcons ((holds_empty _).observe observation)
        fun _ _ hb => hb.observe observation
      recentTypes := by
        intro r hr
        rcases List.mem_or_eq_of_mem_set hr with hr | hr
        · exact hset r.key _ (h.recentTypes r hr)
        · cases hr
          exact hcons ▸ List.mem_cons_self }
  unfold Table.recordType
  split
  case h_1 entry hget => exact hrecord entry _ (by rw [hget]; rfl)
  case h_2 hget =>
    have hnil : typesAt events key = [] := by
      by_contra hne
      obtain ⟨a, ha, -⟩ := h.entries.present key hne
      rw [hget] at ha
      cases ha
    rw [if_neg (Nat.not_le.mpr (hfits hnil))]
    exact hrecord .empty none (by rw [hget]; rfl)

theorem Records.type (key : Key) (observation : ObservedType)
    (hfits : typesAt events key = [] → t.entries.entries.length < t.capacity) :
    Records (.type key observation :: events) (t.observeType key observation).1 := by
  unfold Table.observeType
  split
  case h_2 => exact h.recordType key observation hfits
  case h_1 recent hrecent =>
    obtain ⟨hkey, hobservation, -⟩ : recent.key = key ∧ recent.observation = observation ∧
        recent.version = t.version := by simpa using List.find?_some hrecent
    have hmem := h.recentTypes recent (List.reduceOption_mem_iff.mp (List.mem_of_find?_eq_some hrecent))
    rw [hkey, hobservation] at hmem
    have hset := typesAt_mem hmem
    exact { h with
      entries := h.entries.congr hset fun k _ hR => hR.congr (hset k)
      recentTypes := fun r hr => (hset r.key _).mp (h.recentTypes r hr) }

theorem Records.array (site : Site) (new : ArrayEvent)
    (hfits : arraysAt events site = [] → t.arrays.entries.entries.length < t.arrays.capacity) :
    Records (.array site new :: events) (t.observeArray site new).1 := by
  have hroom : ¬(t.arrays.entries.contains site = false ∧
      t.arrays.capacity ≤ t.arrays.entries.entries.length) := by
    rintro ⟨hnone, hfull⟩
    by_cases hnil : arraysAt events site = []
    · exact absurd (hfits hnil) (Nat.not_lt.mpr hfull)
    · obtain ⟨a, ha, -⟩ := h.arrays.present site hnil
      simp [OrdMap.contains, ha] at hnone
  unfold Table.observeArray ArrayTable.observe
  rw [if_neg hroom]
  exact { h with
    arrays := h.arrays.observe (.empty new.access) (ArrayEntry.observe t.arrays.diversityLimit · new)
      (fun _ hj => seen_skip events rfl (if_neg (Ne.symm hj))) (seen_cons events rfl (if_pos rfl))
      (ArrayHolds.first h.arrayLimit_pos new) fun _ _ hb => hb.observe new }

theorem Records.forget (function : FunctionKey) :
    Records (.forget function :: events) (t.forgetFunction function) where
  entries := h.entries.retain (fun key => key.function ≠ function) fun _ => seen_forget rfl
  calls := h.calls.erase (fun _ hf => (seen_forget rfl).trans (if_pos (decide_eq_true hf)))
    ((seen_forget rfl).trans (by simp))
  binaries := h.binaries.retain (fun s => s.function ≠ function) fun _ => seen_forget rfl
  conversions := h.conversions.retain (fun s => s.function ≠ function) fun _ =>
    seen_forget rfl
  branches := h.branches.retain (fun s => s.function ≠ function) fun _ => seen_forget rfl
  callSignatures := h.callSignatures.retain (fun s => s.function ≠ function) fun _ =>
    seen_forget rfl
  arrays := h.arrays.retain (fun s => s.function ≠ function) fun _ => seen_forget rfl
  arrayLimit_pos := h.arrayLimit_pos
  lastCall f hf := by
    have hne : t.lastCall ≠ some function := by
      intro hlast
      simp [Table.forgetFunction, hlast] at hf
    simp only [Table.forgetFunction, if_neg hne] at hf ⊢
    have hf' : f ≠ function := by
      rintro rfl
      exact hne hf
    rw [callsAt, seen_forget rfl, if_pos (decide_eq_true hf')]
    exact h.lastCall f hf
  recentTypes r hr := by simp [Table.forgetFunction] at hr

end

/-- There is room for the cell the event is about. -/
def Room (events : List Event) (t : Table) : Event → Prop
  | .type key _ => typesAt events key = [] → t.entries.entries.length < t.capacity
  | .array site _ =>
    arraysAt events site = [] → t.arrays.entries.entries.length < t.arrays.capacity
  | _ => True

theorem Records.apply (h : Records events t) (e : Event) (hroom : Room events t e) :
    Records (e :: events) (t.apply e) := by
  cases e with
  | call function arguments => exact h.call function arguments
  | type key observation => exact h.type key observation hroom
  | binary site new => exact h.binary site new
  | conversion site new => exact h.conversion site new
  | branch site new => exact h.branch site new
  | signature site new => exact h.signature site new
  | array site new => exact h.array site new hroom
  | forget function => exact h.forget function

theorem Records.applyPlain (h : Records events t) (e : Event) (hroom : Room events t e) :
    Records (e :: events) (t.applyPlain e) := by
  cases e with
  | call function arguments => exact h.recordCall function arguments
  | type key observation => exact h.recordType key observation hroom
  | _ => exact h.apply _ hroom

end Steps

/-! ## Room for all cells -/

def Table.config (t : Table) : Nat × Nat × Nat × Nat :=
  (t.capacity, t.diversityLimit, t.arrays.capacity, t.arrays.diversityLimit)

theorem recordType_config (t : Table) (key : Key) (observation : ObservedType) :
    (t.recordType key observation).1.config = t.config := by
  unfold Table.recordType
  split
  · rfl
  · split <;> rfl

theorem apply_config (t : Table) (e : Event) : (t.apply e).config = t.config := by
  cases e with
  | call function arguments =>
    simp only [Table.apply, Table.observeCall]
    split <;> rfl
  | type key observation =>
    simp only [Table.apply, Table.observeType]
    split
    · rfl
    · exact recordType_config t key observation
  | array site new =>
    simp only [Table.apply, Table.observeArray, ArrayTable.observe]
    split <;> rfl
  | _ => rfl

theorem applyPlain_config (t : Table) (e : Event) : (t.applyPlain e).config = t.config := by
  cases e with
  | call function arguments => rfl
  | type key observation => exact recordType_config t key observation
  | _ => exact apply_config t _

def Event.typeKey : Event → Option Key
  | .type key _ => some key
  | _ => none

def Event.arraySite : Event → Option Site
  | .array site _ => some site
  | _ => none

/-- The keys that a type has been seen for since their function was forgotten. -/
def typeKeys (events : List Event) : Finset Key :=
  (events.filterMap Event.typeKey).toFinset.filter fun key => typesAt events key ≠ []

/-- The sites that an array has been seen at since their function was forgotten. -/
def arraySites (events : List Event) : Finset Site :=
  (events.filterMap Event.arraySite).toFinset.filter fun site => arraysAt events site ≠ []

/-- Never more than `capacity` type keys or array sites. -/
def Fits (capacity : Nat) : List Event → Prop
  | [] => True
  | e :: earlier =>
    (typeKeys (e :: earlier)).card ≤ capacity ∧ (arraySites (e :: earlier)).card ≤ capacity ∧
      Fits capacity earlier

theorem mem_typeKeys (key : Key) :
    key ∈ typeKeys events ↔ typesAt events key ≠ [] := by
  refine ⟨fun h => (Finset.mem_filter.mp h).2, fun h => Finset.mem_filter.mpr ⟨?_, h⟩⟩
  obtain ⟨o, ho⟩ := List.exists_mem_of_ne_nil _ h
  obtain ⟨e, he, hpick⟩ := mem_seen ho
  refine List.mem_toFinset.mpr (List.mem_filterMap.mpr ⟨e, he, ?_⟩)
  cases e with
  | type k _ =>
    simp only [typeOf, Option.ite_none_right_eq_some] at hpick
    rw [Event.typeKey, hpick.1]
  | _ => cases hpick

theorem mem_arraySites (site : Site) :
    site ∈ arraySites events ↔ arraysAt events site ≠ [] := by
  refine ⟨fun h => (Finset.mem_filter.mp h).2, fun h => Finset.mem_filter.mpr ⟨?_, h⟩⟩
  obtain ⟨o, ho⟩ := List.exists_mem_of_ne_nil _ h
  obtain ⟨e, he, hpick⟩ := mem_seen ho
  refine List.mem_toFinset.mpr (List.mem_filterMap.mpr ⟨e, he, ?_⟩)
  cases e with
  | array s _ =>
    simp only [arrayOf, Option.ite_none_right_eq_some] at hpick
    rw [Event.arraySite, hpick.1]
  | _ => cases hpick

/-- A history that fits leaves room for its last event. -/
theorem Records.room {t : Table} (h : Records events t)
    (htypes : (typeKeys (e :: events)).card ≤ t.capacity)
    (harrays : (arraySites (e :: events)).card ≤ t.arrays.capacity) : Room events t e := by
  cases e with
  | type key observation =>
    intro hnil
    rw [h.entries.length_eq mem_typeKeys]
    refine Nat.lt_of_lt_of_le (Finset.card_lt_card ?_) htypes
    refine (Finset.ssubset_iff_of_subset fun k hk => ?_).mpr ⟨key, ?_, ?_⟩
    · rw [mem_typeKeys] at hk ⊢
      by_cases hkey : key = k
      · exact absurd (hkey ▸ hnil) hk
      · rwa [typesAt, seen_skip events rfl (if_neg hkey)]
    · rw [mem_typeKeys, typesAt, seen_cons events rfl (if_pos rfl)]
      exact List.cons_ne_nil _ _
    · rw [mem_typeKeys, hnil]
      exact not_not.mpr rfl
  | array site new =>
    intro hnil
    rw [h.arrays.length_eq mem_arraySites]
    refine Nat.lt_of_lt_of_le (Finset.card_lt_card ?_) harrays
    refine (Finset.ssubset_iff_of_subset fun k hk => ?_).mpr ⟨site, ?_, ?_⟩
    · rw [mem_arraySites] at hk ⊢
      by_cases hsite : site = k
      · exact absurd (hsite ▸ hnil) hk
      · rwa [arraysAt, seen_skip events rfl (if_neg hsite)]
    · rw [mem_arraySites, arraysAt, seen_cons events rfl (if_pos rfl)]
      exact List.cons_ne_nil _ _
    · rw [mem_arraySites, hnil]
      exact not_not.mpr rfl
  | _ => trivial

/-- Any way to carry out events that records them records whole histories. -/
theorem records_foldr (carry : Table → Event → Table)
    (hrecords : ∀ t events e, Records events t → Room events t e → Records (e :: events) (carry t e))
    (hconfig : ∀ t e, (carry t e).config = t.config) (limit : Nat) :
    ∀ events, Fits capacity events →
      Records events (events.foldr (fun e t => carry t e) (.new capacity limit)) ∧
        (events.foldr (fun e t => carry t e) (Table.new capacity limit)).config =
          (Table.new capacity limit).config
  | [], _ => ⟨Records.new capacity limit, rfl⟩
  | e :: earlier, hfits => by
    obtain ⟨htypes, harrays, hearlier⟩ := hfits
    obtain ⟨hr, hc⟩ := records_foldr carry hrecords hconfig limit earlier hearlier
    have htypes' := congrArg Prod.fst hc
    have harrays' := congrArg (fun c => c.2.2.1) hc
    simp only [Table.config] at htypes' harrays'
    rw [List.foldr_cons]
    refine ⟨hrecords _ _ _ hr (hr.room ?_ ?_), (hconfig _ _).trans hc⟩
    · rw [htypes']
      exact htypes
    · rw [harrays']
      exact harrays

/-- A table after a history that fits. -/
theorem run_records (limit : Nat) {ops : List Op} (hfits : Fits capacity (history ops)) :
    Records (history ops) ((Table.new capacity limit).run ops) ∧
      ((Table.new capacity limit).run ops).config = (Table.new capacity limit).config := by
  rw [run_history]
  exact records_foldr Table.apply (fun _ _ e h => h.apply e) apply_config limit _ hfits

theorem runPlain_records (limit : Nat) {ops : List Op} (hfits : Fits capacity (history ops)) :
    Records (history ops) ((Table.new capacity limit).runPlain ops) ∧
      ((Table.new capacity limit).runPlain ops).config = (Table.new capacity limit).config :=
  records_foldr Table.applyPlain (fun _ _ e h => h.applyPlain e) applyPlain_config limit _ hfits

end Feedback

end QuickJit
