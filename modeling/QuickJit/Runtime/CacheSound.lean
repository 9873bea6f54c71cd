import Mathlib
import QuickJit.Runtime.CodeCache

/-
  What the code cache keeps true.

  `Sound` is the invariant the cache maintains between and inside its
  operations, relative to the execution pins that are alive and to the deopt
  pin an insertion is holding: the counters of every resident artifact count
  the pins on it, the strong count is the sum of all its owners, an optimizing
  artifact's target is the baseline resident under its key, and the charges
  are sums over the resident artifacts. `Sound.remove` is the step of every
  eviction and reclamation: taking out an artifact without pins and references
  destroys it, and destroying it releases exactly its own reference.
-/

namespace QuickJit

open Function OrdMap

namespace CodeCache

/-- A sum over the resident artifacts. -/
def total (c : CodeCache) (g : CachedArtifact → Nat) : Nat :=
  (c.artifacts.entries.map fun entry => g (c.cells entry.2)).sum

/-- One for an artifact whose deopt pin is on `a`. -/
def refersTo (a : Address) (x : CachedArtifact) : Nat := if x.deoptTarget = some a then 1 else 0

/-- The cache without its cells, its benefit target, its clock and the
reclamation flag. -/
def ledger (c : CodeCache) : CodeCache :=
  { c with
    cells := fun _ => default, lastBenefitTarget := none, clock := 0, reclaimNeeded := false }

section Totals

variable {c c' : CodeCache} {g : CachedArtifact → Nat} {key : ArtifactKey} {a : Address}

theorem total_congr (hart : c'.artifacts = c.artifacts)
    (h : ∀ key a, c.artifacts.get? key = some a → g (c'.cells a) = g (c.cells a)) :
    c'.total g = c.total g := by
  unfold total
  rw [hart]
  refine congrArg List.sum (List.map_congr_left fun entry hentry => ?_)
  exact h entry.1 entry.2 (mem_entries.mp hentry)

theorem total_erase (hart : c'.artifacts = c.artifacts.erase key)
    (ha : c.artifacts.get? key = some a)
    (h : ∀ key a, c'.artifacts.get? key = some a → g (c'.cells a) = g (c.cells a)) :
    c.total g = g (c.cells a) + c'.total g := by
  have hperm := (perm_erase ha).map fun entry => g (c.cells entry.2)
  unfold total
  rw [hperm.sum_eq, List.map_cons, List.sum_cons, ← hart]
  refine congrArg (g (c.cells a) + ·) (congrArg List.sum (List.map_congr_left fun entry hentry => ?_))
  exact (h entry.1 entry.2 (mem_entries.mp hentry)).symm

theorem total_insert (hart : c'.artifacts = c.artifacts.insert key a)
    (ha : c.artifacts.get? key = none)
    (h : ∀ key a, c.artifacts.get? key = some a → g (c'.cells a) = g (c.cells a)) :
    c'.total g = g (c'.cells a) + c.total g := by
  have hperm := (perm_insert a ha).map fun entry => g (c'.cells entry.2)
  unfold total
  rw [hart, hperm.sum_eq, List.map_cons, List.sum_cons]
  refine congrArg (g (c'.cells a) + ·) (congrArg List.sum (List.map_congr_left fun entry hentry => ?_))
  exact h entry.1 entry.2 (mem_entries.mp hentry)

end Totals

/-! ## The invariant -/

/-- The cache agrees with the live execution pins `pins` and with the deopt pins
`held` that no resident artifact owns. -/
structure Sound (c : CodeCache) (pins held : List Address) : Prop where
  key_eq : ∀ {key a}, c.artifacts.get? key = some a → (c.cells a).artifact.key = key
  fresh : ∀ {key a}, c.artifacts.get? key = some a → a < c.next
  pinned : ∀ {key a}, c.artifacts.get? key = some a → (c.cells a).executionPins = pins.count a
  references : ∀ {key a}, c.artifacts.get? key = some a →
    (c.cells a).deoptReferences = c.total (refersTo a) + held.count a
  owners : ∀ {key a}, c.artifacts.get? key = some a →
    (c.cells a).strong = 1 + (if c.lastBenefitTarget = some a then 1 else 0) +
      (c.cells a).executionPins + (c.cells a).deoptReferences
  target : ∀ {key a}, c.artifacts.get? key = some a → key.tier = .optimizing →
    ∃ b, (c.cells a).deoptTarget = some b ∧ c.artifacts.get? (key.withTier .baseline) = some b
  no_target : ∀ {key a}, c.artifacts.get? key = some a → key.tier = .baseline →
    (c.cells a).deoptTarget = none
  pins_resident : ∀ {a}, a ∈ pins → ∃ key, c.artifacts.get? key = some a
  held_resident : ∀ {a}, a ∈ held → ∃ key, c.artifacts.get? key = some a
  benefit_resident : ∀ {a}, c.lastBenefitTarget = some a → ∃ key, c.artifacts.get? key = some a
  charged : c.chargedBytes = c.total (·.chargeBytes)
  chargedCode : c.chargedCodeBytes = c.total (·.codeBytes)
  chargedMetadata : c.chargedMetadataBytes = c.total (·.metadataBytes)
  removed : ∀ {r}, r ∈ c.removals → r.executionPins = 0 ∧ r.deoptReferences = 0

/-- The charges respect the limits. -/
structure Within (c : CodeCache) : Prop where
  bytes : c.chargedBytes ≤ c.maxBytes
  code : c.separateLimits = true → c.chargedCodeBytes ≤ c.maxCodeBytes
  metadata : c.separateLimits = true → c.chargedMetadataBytes ≤ c.maxMetadataBytes

/-- Two cells that differ in counters, use and benefit only. -/
structure SameBody (x y : CachedArtifact) : Prop where
  key : y.artifact.key = x.artifact.key
  deoptTarget : y.deoptTarget = x.deoptTarget
  chargeBytes : y.chargeBytes = x.chargeBytes
  codeBytes : y.codeBytes = x.codeBytes
  metadataBytes : y.metadataBytes = x.metadataBytes

/-- The counters of a resident cell's next value, when `benefit` is the benefit
target. -/
structure Counts (c : CodeCache) (pins held : List Address) (benefit : Option Address)
    (a : Address) (x : CachedArtifact) : Prop where
  body : SameBody (c.cells a) x
  pinned : x.executionPins = pins.count a
  references : x.deoptReferences = c.total (refersTo a) + held.count a
  owners : x.strong = 1 + (if benefit = some a then 1 else 0) + x.executionPins +
    x.deoptReferences

variable {c c' : CodeCache} {pins pins' held held' : List Address}
  {key : ArtifactKey} {a b : Address}

section Ledger

variable (hl : c'.ledger = c.ledger)
include hl

theorem ledger_artifacts : c'.artifacts = c.artifacts := by
  have h := congrArg artifacts hl
  exact h

theorem ledger_next : c'.next = c.next := by
  have h := congrArg next hl
  exact h

theorem ledger_removals : c'.removals = c.removals := by
  have h := congrArg removals hl
  exact h

theorem ledger_charges : c'.chargedBytes = c.chargedBytes ∧
    c'.chargedCodeBytes = c.chargedCodeBytes ∧
    c'.chargedMetadataBytes = c.chargedMetadataBytes := by
  have h := congrArg (fun c => (c.chargedBytes, c.chargedCodeBytes, c.chargedMetadataBytes)) hl
  simpa [ledger] using h

end Ledger

/-! ## What the primitives write -/

section

variable (c : CodeCache)

@[simp] theorem signal_ledger (n : Nat) (a : Address) :
    (c.signal n a).ledger = c.ledger := by
  unfold signal
  split <;> rfl

@[simp] theorem signal_cells (n : Nat) (a : Address) :
    (c.signal n a).cells = c.cells := by
  unfold signal
  split <;> rfl

@[simp] theorem signal_lastBenefitTarget (n : Nat) (a : Address) :
    (c.signal n a).lastBenefitTarget = c.lastBenefitTarget := by
  unfold signal
  split <;> rfl

variable (a : Address)

@[simp] theorem modify_lastBenefitTarget (f : CachedArtifact → CachedArtifact) :
    (c.modify a f).lastBenefitTarget = c.lastBenefitTarget := rfl

@[simp] theorem release_lastBenefitTarget :
    (c.release a).lastBenefitTarget = c.lastBenefitTarget := rfl

@[simp] theorem modify_ledger (f : CachedArtifact → CachedArtifact) :
    (c.modify a f).ledger = c.ledger := rfl

@[simp] theorem modify_cells (f : CachedArtifact → CachedArtifact) :
    (c.modify a f).cells = update c.cells a (f (c.cells a)) := rfl

@[simp] theorem release_ledger :
    (c.release a).ledger = c.ledger := rfl

theorem release_cells :
    (c.release a).cells =
      update c.cells a { c.cells a with strong := fetchSub (c.cells a).strong } := rfl

@[simp] theorem dropDeoptPin_ledger :
    (c.dropDeoptPin a).ledger = c.ledger := by
  simp [dropDeoptPin]

@[simp] theorem dropDeoptPin_lastBenefitTarget :
    (c.dropDeoptPin a).lastBenefitTarget = c.lastBenefitTarget := by
  simp [dropDeoptPin]

theorem dropDeoptPin_cells :
    (c.dropDeoptPin a).cells = update c.cells a
      { c.cells a with
        deoptReferences := fetchSub (c.cells a).deoptReferences
        strong := fetchSub (c.cells a).strong } := by
  simp [dropDeoptPin, release_cells]

end

/-- An `Arc` with other owners. -/
theorem dropArc_shared (h : (c.cells a).strong ≠ 1) (h0 : (c.cells a).strong ≠ 0) :
    c.dropArc a = c.release a := by
  have hstrong : fetchSub (c.cells a).strong ≠ 0 := by
    unfold fetchSub
    split <;> omega
  simp [dropArc, release_cells, hstrong]

/-- The last `Arc` of an artifact. -/
theorem dropArc_last (h : (c.cells a).strong = 1) :
    c.dropArc a = (c.release a).unhold (c.cells a).deoptTarget := by
  cases hd : (c.cells a).deoptTarget <;> simp [dropArc, release_cells, h, hd, fetchSub, unhold]

@[simp] theorem dropArc_ledger (c : CodeCache) (a : Address) :
    (c.dropArc a).ledger = c.ledger := by
  unfold dropArc
  dsimp only
  split
  · split
    · rw [dropDeoptPin_ledger, release_ledger]
    · rfl
  · rfl

/-- A cell without the two counters that releases change. -/
def content (c : CodeCache) (a : Address) : CachedArtifact :=
  { c.cells a with deoptReferences := 0, strong := 0 }

theorem content_of_update {x : CachedArtifact} (h : c'.cells = update c.cells a x)
    (hx : { x with deoptReferences := 0, strong := 0 } = c.content a) (d : Address) :
    c'.content d = c.content d := by
  unfold content
  rw [h]
  by_cases hd : d = a
  · subst hd
    rw [update_self]
    exact hx
  · rw [update_of_ne hd]

section

variable (c : CodeCache)

@[simp] theorem release_content (a d : Address) :
    (c.release a).content d = c.content d :=
  content_of_update (release_cells c a) rfl d

@[simp] theorem dropDeoptPin_content (a d : Address) :
    (c.dropDeoptPin a).content d = c.content d :=
  content_of_update (dropDeoptPin_cells c a) rfl d

@[simp] theorem dropArc_content (a d : Address) :
    (c.dropArc a).content d = c.content d := by
  unfold dropArc
  dsimp only
  split
  · split
    · rw [dropDeoptPin_content, release_content]
    · rw [release_content]
  · rw [release_content]

theorem clearBenefitTarget_content (key : ArtifactKey) (d : Address) :
    (c.clearBenefitTarget key).content d = c.content d := by
  unfold clearBenefitTarget
  split
  · split
    · rw [dropArc_content]
      rfl
    · rfl
  · rfl

theorem clearBenefitTarget_ledger (key : ArtifactKey) :
    (c.clearBenefitTarget key).ledger = c.ledger := by
  unfold clearBenefitTarget
  split
  · split
    · rw [dropArc_ledger]
      rfl
    · rfl
  · rfl

theorem remove_content (key : ArtifactKey) (d : Address) :
    (c.remove key).content d = c.content d := by
  unfold remove
  dsimp only
  split
  · rw [dropArc_content]
    exact clearBenefitTarget_content c key d
  · exact clearBenefitTarget_content c key d

end

/-- The limits, which are never changed. -/
def limits (c : CodeCache) : Nat × Bool × Nat × Nat :=
  (c.maxBytes, c.separateLimits, c.maxCodeBytes, c.maxMetadataBytes)

/-- The limits and the next address, which removals leave alone. -/
def frame (c : CodeCache) : (Nat × Bool × Nat × Nat) × Address := (c.limits, c.next)

theorem ledger_frame (hl : c'.ledger = c.ledger) : c'.frame = c.frame := by
  have h := congrArg frame hl
  exact h

theorem remove_frame (c : CodeCache) (key : ArtifactKey) : (c.remove key).frame = c.frame := by
  have hl := ledger_frame (clearBenefitTarget_ledger c key)
  unfold remove
  dsimp only
  split
  · rw [ledger_frame (dropArc_ledger _ _)]
    exact hl
  · exact hl

theorem remove_artifacts (h : c.artifacts.get? key = some a) :
    (c.remove key).artifacts = c.artifacts.erase key := by
  have hart := ledger_artifacts (clearBenefitTarget_ledger c key)
  unfold remove
  dsimp only
  rw [hart, h]
  dsimp only
  rw [ledger_artifacts (dropArc_ledger _ a), unlink, hart]

/-- A cell whose counters are kept. -/
structure Quiet (x y : CachedArtifact) : Prop where
  body : SameBody x y
  executionPins : y.executionPins = x.executionPins
  deoptReferences : y.deoptReferences = x.deoptReferences
  strong : y.strong = x.strong

theorem Quiet.refl (x : CachedArtifact) : Quiet x x := ⟨⟨rfl, rfl, rfl, rfl, rfl⟩, rfl, rfl, rfl⟩

namespace Sound

section

variable (hs : c.Sound pins held)

include hs

/-- An address is resident under one key. -/
theorem key_unique {key' : ArtifactKey} (h : c.artifacts.get? key = some a)
    (h' : c.artifacts.get? key' = some a) : key = key' :=
  (hs.key_eq h).symm.trans (hs.key_eq h')

theorem counts (ha : c.artifacts.get? key = some a) :
    Counts c pins held c.lastBenefitTarget a (c.cells a) :=
  ⟨⟨rfl, rfl, rfl, rfl, rfl⟩, hs.pinned ha, hs.references ha, hs.owners ha⟩

/-- Cells may change while the map does not, if the counters follow the pins. -/
theorem of_cells (hl : c'.ledger = c.ledger) (hcounts : ∀ {key a}, c.artifacts.get? key = some a →
      Counts c pins' held' c'.lastBenefitTarget a (c'.cells a))
    (hpins : ∀ {a}, a ∈ pins' → ∃ key, c.artifacts.get? key = some a)
    (hheld : ∀ {a}, a ∈ held' → ∃ key, c.artifacts.get? key = some a)
    (hbenefit : ∀ {a}, c'.lastBenefitTarget = some a → ∃ key, c.artifacts.get? key = some a) :
    c'.Sound pins' held' := by
  have hart : c'.artifacts = c.artifacts := ledger_artifacts hl
  have htotal : ∀ g : CachedArtifact → Nat,
      (∀ {x y}, SameBody x y → g y = g x) → c'.total g = c.total g :=
    fun g hg => total_congr hart fun key a ha => hg (hcounts ha).body
  have hrefersTo : ∀ a, c'.total (refersTo a) = c.total (refersTo a) := fun a =>
    htotal _ fun h => by simp only [refersTo, h.deoptTarget]
  constructor <;> rw [hart] at * <;> intros
  case key_eq ha => exact (hcounts ha).body.key.trans (hs.key_eq ha)
  case fresh ha => exact ledger_next hl ▸ hs.fresh ha
  case pinned ha => exact (hcounts ha).pinned
  case references ha => rw [hrefersTo]; exact (hcounts ha).references
  case owners ha => exact (hcounts ha).owners
  case target ha ht =>
    obtain ⟨b, hb, hres⟩ := hs.target ha ht
    exact ⟨b, (hcounts ha).body.deoptTarget.trans hb, hres⟩
  case no_target ha ht => exact (hcounts ha).body.deoptTarget.trans (hs.no_target ha ht)
  case pins_resident ha => exact hpins ha
  case held_resident ha => exact hheld ha
  case benefit_resident ha => exact hbenefit ha
  case charged =>
    rw [htotal _ SameBody.chargeBytes]
    exact (ledger_charges hl).1.trans hs.charged
  case chargedCode =>
    rw [htotal _ SameBody.codeBytes]
    exact (ledger_charges hl).2.1.trans hs.chargedCode
  case chargedMetadata =>
    rw [htotal _ SameBody.metadataBytes]
    exact (ledger_charges hl).2.2.trans hs.chargedMetadata
  case removed hr => exact hs.removed (ledger_removals hl ▸ hr)

/-- One cell may change while the map does not. -/
theorem of_update {x : CachedArtifact} (hl : c'.ledger = c.ledger)
    (hcells : c'.cells = update c.cells b x)
    (hbenefit : c'.lastBenefitTarget = c.lastBenefitTarget)
    (hx : Counts c pins' held' c.lastBenefitTarget b x)
    (hcounts : ∀ {key a}, c.artifacts.get? key = some a → a ≠ b →
      Counts c pins' held' c.lastBenefitTarget a (c.cells a))
    (hpins : ∀ {a}, a ∈ pins' → ∃ key, c.artifacts.get? key = some a)
    (hheld : ∀ {a}, a ∈ held' → ∃ key, c.artifacts.get? key = some a) :
    c'.Sound pins' held' := by
  refine hs.of_cells hl (fun {key a} ha => ?_) hpins hheld (hbenefit ▸ hs.benefit_resident)
  rw [hcells, hbenefit]
  by_cases hab : a = b
  · subst hab
    rwa [update_self]
  · rw [update_of_ne hab]
    exact hcounts ha hab

/-! ### Pins -/

theorem takeDeoptPin (ha : c.artifacts.get? key = some a) :
    (c.takeDeoptPin a).Sound pins (a :: held) := by
  have hcount := hs.counts ha
  have hreferences := hcount.references
  have howners := hcount.owners
  refine hs.of_update (b := a) rfl rfl rfl
    ⟨⟨rfl, rfl, rfl, rfl, rfl⟩, hcount.pinned, ?_, ?_⟩ (fun {key' b} hb hne => ?_)
    hs.pins_resident (fun hheld => ?_)
  · simp only [List.count_cons_self]
    omega
  · simp only
    omega
  · have hcount := hs.counts hb
    exact ⟨hcount.body, hcount.pinned,
      by rw [List.count_cons_of_ne (Ne.symm hne)]; exact hcount.references, hcount.owners⟩
  · rcases List.mem_cons.mp hheld with rfl | hheld
    · exact ⟨key, ha⟩
    · exact hs.held_resident hheld

end

theorem dropDeoptPin (hs : c.Sound pins (a :: held)) : (c.dropDeoptPin a).Sound pins held := by
  obtain ⟨key, ha⟩ := hs.held_resident List.mem_cons_self
  have hcount := hs.counts ha
  have hreferences := hcount.references
  rw [List.count_cons_self] at hreferences
  have howners := hcount.owners
  refine hs.of_update (dropDeoptPin_ledger c a) (dropDeoptPin_cells c a)
    (dropDeoptPin_lastBenefitTarget c a)
    ⟨⟨rfl, rfl, rfl, rfl, rfl⟩, hcount.pinned, ?_, ?_⟩ (fun {key' b} hb hne => ?_)
    hs.pins_resident (fun hheld => hs.held_resident (List.mem_cons_of_mem _ hheld))
  · simp only
    rw [fetchSub_pos (by omega)]
    omega
  · simp only
    rw [fetchSub_pos (by omega), fetchSub_pos (by omega)]
    omega
  · have hcount := hs.counts hb
    have hreferences := hcount.references
    rw [List.count_cons_of_ne (Ne.symm hne)] at hreferences
    exact ⟨hcount.body, hcount.pinned, hreferences, hcount.owners⟩

theorem hold (hs : c.Sound pins held) {target : Option Address}
    (ht : ∀ a, target = some a → ∃ key, c.artifacts.get? key = some a) :
    (c.hold target).Sound pins (target.toList ++ held) := by
  cases target with
  | none => exact hs
  | some a =>
    obtain ⟨key, ha⟩ := ht a rfl
    exact hs.takeDeoptPin ha

theorem unhold {target : Option Address} (hs : c.Sound pins (target.toList ++ held)) :
    (c.unhold target).Sound pins held := by
  cases target with
  | none => exact hs
  | some a => exact hs.dropDeoptPin

section

variable (hs : c.Sound pins held)

include hs

theorem of_quiet (hl : c'.ledger = c.ledger) (hb : c'.lastBenefitTarget = c.lastBenefitTarget)
    (hq : ∀ a, Quiet (c.cells a) (c'.cells a)) : c'.Sound pins held := by
  refine hs.of_cells hl (fun {key a} ha => ?_) hs.pins_resident hs.held_resident
    (hb ▸ hs.benefit_resident)
  have hcount := hs.counts ha
  exact ⟨(hq a).body, (hq a).executionPins.trans hcount.pinned,
    (hq a).deoptReferences.trans hcount.references, by
      rw [(hq a).strong, (hq a).executionPins, (hq a).deoptReferences, hb]
      exact hcount.owners⟩

theorem modify_quiet {f : CachedArtifact → CachedArtifact} (h : ∀ x, Quiet x (f x)) :
    (c.modify a f).Sound pins held := by
  refine hs.of_quiet rfl rfl fun d => ?_
  rw [modify_cells]
  by_cases hd : d = a
  · subst hd
    rw [update_self]
    exact h _
  · rw [update_of_ne hd]
    exact .refl _

theorem nextTick : c.nextTick.Sound pins held :=
  hs.of_quiet rfl rfl fun _ => ⟨⟨rfl, rfl, rfl, rfl, rfl⟩, rfl, rfl, rfl⟩

theorem addPin (ha : c.artifacts.get? key = some a) :
    (c.modify a fun x =>
      { x with strong := x.strong + 1, executionPins := x.executionPins + 1,
               lastUsed := c.clock }).Sound (a :: pins) held := by
  have hcount := hs.counts ha
  have howners := hcount.owners
  refine hs.of_update rfl rfl rfl ⟨⟨rfl, rfl, rfl, rfl, rfl⟩, ?_, hcount.references, ?_⟩
    (fun {key' b} hb hne => ?_) (fun hb => ?_) hs.held_resident
  · simp [hcount.pinned]
  · simp only
    omega
  · have hcount := hs.counts hb
    exact ⟨hcount.body, by simpa [Ne.symm hne] using hcount.pinned, hcount.references,
      hcount.owners⟩
  · rcases List.mem_cons.mp hb with rfl | hb
    · exact ⟨key, ha⟩
    · exact hs.pins_resident hb

theorem dropPin (ha : a ∈ pins) :
    (c.dropPin a).Sound (pins.erase a) held := by
  obtain ⟨key, hres⟩ := hs.pins_resident ha
  have hcount := hs.counts hres
  have hpos : 0 < pins.count a := List.count_pos_iff.mpr ha
  have hpinned := hcount.pinned
  have howners := hcount.owners
  let x := { c.cells a with executionPins := fetchSub (c.cells a).executionPins }
  let c₁ := (c.modify a fun x => { x with executionPins := fetchSub x.executionPins }).signal
    (c.cells a).executionPins a
  have hcells₁ : c₁.cells = update c.cells a x := by simp [c₁, x]
  have hdrop : c.dropPin a = c₁.release a := by
    refine dropArc_shared ?_ ?_ <;> simp <;> omega
  have hcells : (c.dropPin a).cells =
      update c.cells a { x with strong := fetchSub (c.cells a).strong } := by
    rw [hdrop, release_cells, hcells₁]
    simp [x]
  have hbenefit : (c.dropPin a).lastBenefitTarget = c.lastBenefitTarget := by
    rw [hdrop]
    simp [c₁]
  refine hs.of_update (by rw [hdrop]; simp [c₁]) hcells hbenefit
    ⟨⟨rfl, rfl, rfl, rfl, rfl⟩, ?_, hcount.references, ?_⟩ (fun {key' b} hb hne => ?_)
    (fun hb => hs.pins_resident (List.mem_of_mem_erase hb)) hs.held_resident
  · simp only [x, hpinned, List.count_erase_self]
    exact fetchSub_pos (by omega)
  · simp only [x]
    rw [fetchSub_pos (by omega), fetchSub_pos (by omega)]
    omega
  · have hcount := hs.counts hb
    exact ⟨hcount.body, by rw [List.count_erase_of_ne hne]; exact hcount.pinned,
      hcount.references, hcount.owners⟩

/-! ### Removal -/

theorem forgetBenefit_eq (hb : c.lastBenefitTarget = some a) :
    { c with lastBenefitTarget := none }.dropArc a =
      { c with lastBenefitTarget := none }.release a := by
  obtain ⟨key, ha⟩ := hs.benefit_resident hb
  have howners := hs.owners ha
  rw [if_pos hb] at howners
  exact dropArc_shared (by simp only; omega) (by simp only; omega)

/-- The benefit target gives up its `Arc`; the artifact stays. -/
theorem forgetBenefit (hb : c.lastBenefitTarget = some a) :
    ({ c with lastBenefitTarget := none }.release a).Sound pins held := by
  refine hs.of_cells rfl (fun {key d} hd => ?_) hs.pins_resident hs.held_resident nofun
  have hcount := hs.counts hd
  have howners := hcount.owners
  rw [release_cells]
  by_cases hda : d = a
  · subst hda
    rw [if_pos hb] at howners
    rw [update_self]
    refine ⟨⟨rfl, rfl, rfl, rfl, rfl⟩, hcount.pinned, hcount.references, ?_⟩
    simp only [release_lastBenefitTarget]
    rw [fetchSub_pos (by omega)]
    simp
    omega
  · rw [update_of_ne hda]
    have hne : c.lastBenefitTarget ≠ some d := fun h => hda (Option.some.inj (h.symm.trans hb))
    rw [if_neg hne] at howners
    exact ⟨hcount.body, hcount.pinned, hcount.references, by simpa using howners⟩

variable (ha : c.artifacts.get? key = some a)

include ha

/-- Clearing the benefit target leaves a sound cache in which the artifact has
no such owner. -/
theorem clearBenefitTarget :
    (c.clearBenefitTarget key).Sound pins held ∧
      (c.clearBenefitTarget key).ledger = c.ledger ∧
      (c.clearBenefitTarget key).lastBenefitTarget ≠ some a ∧
      ∀ d, ∃ n, (c.clearBenefitTarget key).cells d = { c.cells d with strong := n } := by
  unfold CodeCache.clearBenefitTarget
  split
  case h_1 b hb =>
    split
    case isTrue hkey =>
      rw [hs.forgetBenefit_eq hb]
      refine ⟨hs.forgetBenefit hb, rfl, nofun, fun d => ?_⟩
      rw [release_cells]
      by_cases hd : d = b
      · subst hd
        exact ⟨_, update_self ..⟩
      · exact ⟨_, update_of_ne hd ..⟩
    case isFalse hkey =>
      refine ⟨hs, rfl, fun h => hkey ?_, fun d => ⟨_, rfl⟩⟩
      rw [Option.some.inj (hb.symm.trans h)]
      exact hs.key_eq ha
  case h_2 hb => exact ⟨hs, rfl, by simp [hb], fun d => ⟨_, rfl⟩⟩

/-- An artifact without pins and references leaves the map; its own deopt pin
is still to be dropped. -/
theorem unlink (hp : (c.cells a).executionPins = 0) (hr : (c.cells a).deoptReferences = 0)
    (hb : c.lastBenefitTarget ≠ some a) :
    ((c.unlink key a).release a).Sound pins ((c.cells a).deoptTarget.toList ++ held) := by
  have hart : ((c.unlink key a).release a).artifacts = c.artifacts.erase key := rfl
  have hother : ∀ {key' d}, (c.artifacts.erase key).get? key' = some d →
      c.artifacts.get? key' = some d ∧ key' ≠ key ∧ d ≠ a := by
    intro key' d hd
    rw [get?_erase] at hd
    split at hd
    · cases hd
    case isFalse hne =>
    refine ⟨hd, Ne.symm hne, fun hda => hne ?_⟩
    subst hda
    exact hs.key_unique ha hd
  have hcells : ∀ {key' d}, (c.artifacts.erase key).get? key' = some d →
      ((c.unlink key a).release a).cells d = c.cells d := fun hd =>
    update_of_ne (hother hd).2.2 ..
  have htotal : ∀ g : CachedArtifact → Nat,
      c.total g = g (c.cells a) + ((c.unlink key a).release a).total g := fun g =>
    total_erase hart ha fun key' d hd => congrArg g (hcells hd)
  have hunreferenced := (hs.references ha).symm.trans hr
  have hkeep : ∀ {d}, d ≠ a → (∃ key', c.artifacts.get? key' = some d) →
      ∃ key', (c.artifacts.erase key).get? key' = some d := by
    rintro d hda ⟨key', hd⟩
    refine ⟨key', (get?_erase_ne _ fun h => hda ?_).trans hd⟩
    subst h
    exact Option.some.inj (hd.symm.trans ha)
  have hreferrer : ∀ {key' d}, (c.artifacts.erase key).get? key' = some d →
      (c.cells d).deoptTarget ≠ some a := by
    intro key' d hd hda
    have hle := htotal (refersTo a)
    let without := { (c.unlink key a).release a with artifacts := (c.artifacts.erase key).erase key' }
    have hart' : without.artifacts = ((c.unlink key a).release a).artifacts.erase key' := rfl
    have hsum := total_erase (g := refersTo a) hart' hd fun _ _ _ => rfl
    rw [hcells hd] at hsum
    simp only [refersTo, hda, if_true] at hsum
    simp only [refersTo] at hunreferenced hle
    omega
  constructor <;> rw [hart] at * <;> intros
  case key_eq hd => rw [hcells hd]; exact hs.key_eq (hother hd).1
  case fresh hd => exact hs.fresh (hother hd).1
  case pinned hd => rw [hcells hd]; exact hs.pinned (hother hd).1
  case references d hd =>
    rw [hcells hd, hs.references (hother hd).1, htotal, List.count_append]
    cases htarget : (c.cells a).deoptTarget with
    | none => simp [refersTo, htarget]
    | some t =>
      by_cases htd : t = d <;> (simp [refersTo, htarget, htd]; try omega)
  case owners hd => rw [hcells hd]; exact hs.owners (hother hd).1
  case target key' d hd ht =>
    obtain ⟨b, hb, hres⟩ := hs.target (hother hd).1 ht
    refine ⟨b, (hcells hd).symm ▸ hb, (get?_erase_ne _ fun h => ?_).trans hres⟩
    rw [← h] at hres
    exact hreferrer hd (hb.trans (hres.symm.trans ha))
  case no_target hd ht => rw [hcells hd]; exact hs.no_target (hother hd).1 ht
  case pins_resident d hd =>
    refine hkeep (fun h => ?_) (hs.pins_resident hd)
    subst h
    have := (hs.pinned ha).symm.trans hp
    exact List.count_pos_iff.mpr hd |>.ne' this
  case held_resident d hd =>
    rcases List.mem_append.mp hd with howned | hheld
    · rw [Option.mem_toList] at howned
      have htier : key.tier = .optimizing := by
        cases htier : key.tier with
        | optimizing => rfl
        | baseline => cases (hs.no_target ha htier).symm.trans howned
      obtain ⟨b, hb, hres⟩ := hs.target ha htier
      have hbd : b = d := Option.some.inj (hb.symm.trans howned)
      refine hkeep (fun h => ?_) ⟨_, hbd ▸ hres⟩
      have hkeys := hs.key_unique ha (h ▸ hbd ▸ hres)
      rw [hkeys, ArtifactKey.withTier_tier] at htier
      cases htier
    · refine hkeep (fun h => ?_) (hs.held_resident hheld)
      subst h
      have hpos := List.count_pos_iff.mpr hheld
      omega
  case benefit_resident d hd =>
    refine hkeep (fun h => hb ?_) (hs.benefit_resident hd)
    rw [← h]
    exact hd
  case charged =>
    have h₁ := htotal (·.chargeBytes)
    have h₂ := hs.charged
    show c.chargedBytes - (c.cells a).chargeBytes = _
    omega
  case chargedCode =>
    have h₁ := htotal (·.codeBytes)
    have h₂ := hs.chargedCode
    show c.chargedCodeBytes - (c.cells a).codeBytes = _
    omega
  case chargedMetadata =>
    have h₁ := htotal (·.metadataBytes)
    have h₂ := hs.chargedMetadata
    show c.chargedMetadataBytes - (c.cells a).metadataBytes = _
    omega
  case removed r hmem =>
    rcases List.mem_cons.mp hmem with rfl | hmem
    · exact ⟨hp, hr⟩
    · exact hs.removed hmem

/-- Removing an artifact without pins and references destroys it and releases
the reference it held. -/
theorem remove (hp : (c.cells a).executionPins = 0) (hr : (c.cells a).deoptReferences = 0) :
    (c.remove key).Sound pins held := by
  obtain ⟨hs₁, hl, hb, hcells⟩ := hs.clearBenefitTarget ha
  unfold CodeCache.remove
  dsimp only
  rw [ledger_artifacts hl, ha]
  rw [← ledger_artifacts hl] at ha
  obtain ⟨n, hn⟩ := hcells a
  have hp₁ : ((c.clearBenefitTarget key).cells a).executionPins = 0 := by rw [hn]; exact hp
  have hr₁ : ((c.clearBenefitTarget key).cells a).deoptReferences = 0 := by rw [hn]; exact hr
  have howners := hs₁.owners ha
  rw [if_neg hb, hp₁, hr₁] at howners
  dsimp only
  rw [dropArc_last (c := (c.clearBenefitTarget key).unlink key a) howners]
  exact (hs₁.unlink ha hp₁ hr₁ hb).unhold

/-- The address of a removed artifact is not resident any more. -/
theorem remove_get? {key' : ArtifactKey} {d : Address}
    (hd : (c.remove key).artifacts.get? key' = some d) :
    c.artifacts.get? key' = some d ∧ key' ≠ key ∧ d ≠ a := by
  rw [remove_artifacts ha, get?_erase] at hd
  split at hd
  · cases hd
  case isFalse hne =>
  refine ⟨hd, Ne.symm hne, fun hda => hne ?_⟩
  subst hda
  exact hs.key_unique ha hd

end

/-- What a removal takes off a sum. -/
theorem remove_total (ha : c.artifacts.get? key = some a)
    {g : CachedArtifact → Nat} (hg : ∀ x, g { x with deoptReferences := 0, strong := 0 } = g x) :
    c.total g = g (c.cells a) + (c.remove key).total g :=
  total_erase (remove_artifacts ha) ha fun key' d _ => by
    rw [← hg, ← hg (c.cells d)]
    exact congrArg g (remove_content c key d)

theorem remove_charges (hs : c.Sound pins held) (ha : c.artifacts.get? key = some a)
    (hp : (c.cells a).executionPins = 0) (hr : (c.cells a).deoptReferences = 0) :
    c.chargedBytes = (c.cells a).chargeBytes + (c.remove key).chargedBytes ∧
      c.chargedCodeBytes = (c.cells a).codeBytes + (c.remove key).chargedCodeBytes ∧
      c.chargedMetadataBytes = (c.cells a).metadataBytes + (c.remove key).chargedMetadataBytes := by
  have hs' := hs.remove ha hp hr
  rw [hs.charged, hs.chargedCode, hs.chargedMetadata, hs'.charged, hs'.chargedCode,
    hs'.chargedMetadata]
  exact ⟨remove_total ha fun _ => rfl, remove_total ha fun _ => rfl, remove_total ha fun _ => rfl⟩

/-- A removal releases the reference of the removed artifact, and no other. -/
theorem remove_references (hs : c.Sound pins held) (ha : c.artifacts.get? key = some a)
    (hp : (c.cells a).executionPins = 0) (hr : (c.cells a).deoptReferences = 0)
    {key' : ArtifactKey} {d : Address} (hd : (c.remove key).artifacts.get? key' = some d) :
    (c.cells d).deoptReferences =
      refersTo d (c.cells a) + ((c.remove key).cells d).deoptReferences := by
  rw [hs.references (remove_get? hs ha hd).1, (hs.remove ha hp hr).references hd,
    remove_total (g := refersTo d) ha fun _ => rfl]
  omega

end Sound

end CodeCache

end QuickJit
