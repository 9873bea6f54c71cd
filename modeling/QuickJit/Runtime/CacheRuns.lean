import QuickJit.Lib.Transition
import QuickJit.Runtime.CacheInsert

/-
  The code cache over whole runs.

  A `CacheSystem` is a cache with the execution pins that are alive; pins are
  dropped in any order. Every operation keeps `Sound` and the limits
  (`CacheSystem.step_ok`), so the counters are exact after every run
  (`cache_accounting`).
-/

namespace QuickJit

open CodeCache Function OrdMap

/-- A cell without its counters, its use and its benefit. -/
def CachedArtifact.essence (x : CachedArtifact) : CachedArtifact :=
  { x with
    artifact := { x.artifact with benefit := 0 }
    executionPins := 0, deoptReferences := 0, lastUsed := 0, strong := 0 }

theorem CachedArtifact.Priced.of_essence [TypeSizes] {x y : CachedArtifact} (h : x.Priced)
    (heq : y.essence = x.essence) : y.Priced := by
  have hx : x.essence.Priced := ⟨h.chargeBytes, h.codeBytes, h.metadataBytes⟩
  rw [← heq] at hx
  exact ⟨hx.chargeBytes, hx.codeBytes, hx.metadataBytes⟩

namespace CodeCache

variable {c c' : CodeCache} {pins pins' held held' : List Address}
  {key : ArtifactKey} {a b : Address}

/-! ## Use -/

namespace Sound

variable (hs : c.Sound pins held)

include hs

theorem touch (key : ArtifactKey) : (c.touch key).1.Sound pins held := by
  unfold CodeCache.touch
  dsimp only
  split
  · dsimp only
    refine hs.nextTick.modify_quiet fun _ => ?_
    exact ⟨⟨rfl, rfl, rfl, rfl, rfl⟩, rfl, rfl, rfl⟩
  · exact hs.nextTick

theorem credit (a : Address) (benefit : Nat) :
    (c.credit a benefit).Sound pins held :=
  hs.modify_quiet fun _ => ⟨⟨rfl, rfl, rfl, rfl, rfl⟩, rfl, rfl, rfl⟩

/-- The new benefit target gains an owner, the old one loses it. -/
theorem retarget_cells (hne : c.lastBenefitTarget ≠ some a) :
    (c.retarget a).ledger = c.ledger ∧ (c.retarget a).lastBenefitTarget = some a ∧
      (c.retarget a).clock = c.clock ∧ (c.retarget a).reclaimNeeded = c.reclaimNeeded ∧
      ∀ d, (c.retarget a).cells d = { c.cells d with
        strong := if d = a then (c.cells d).strong + 1
          else if c.lastBenefitTarget = some d then (c.cells d).strong - 1
          else (c.cells d).strong } := by
  have htaken : ∀ d, (c.modify a fun x => { x with strong := x.strong + 1 }).cells d =
      { c.cells d with
        strong := if d = a then (c.cells d).strong + 1 else (c.cells d).strong } := by
    intro d
    rw [modify_cells]
    by_cases hd : d = a
    · subst hd
      rw [update_self, if_pos rfl]
    · rw [update_of_ne hd, if_neg hd]
  unfold CodeCache.retarget
  dsimp only
  split
  case h_1 b hb =>
    have hba : b ≠ a := fun h => hne (h ▸ hb)
    obtain ⟨key, hres⟩ := hs.benefit_resident hb
    have howners := hs.owners hres
    rw [if_pos hb] at howners
    have hstrong : ((c.modify a fun x => { x with strong := x.strong + 1 }).cells b).strong =
        (c.cells b).strong := by
      rw [htaken, if_neg hba]
    rw [dropArc_shared (by dsimp only; omega) (by dsimp only; omega)]
    refine ⟨rfl, rfl, rfl, rfl, fun d => ?_⟩
    rw [release_cells]
    dsimp only
    by_cases hd : d = b
    · subst hd
      rw [update_self, htaken, if_neg hba, if_neg hba, if_pos hb]
      dsimp only
      rw [fetchSub_pos (by omega)]
    · rw [update_of_ne hd, htaken, if_neg (c := c.lastBenefitTarget = some d) fun h =>
        hd (Option.some.inj (h.symm.trans hb))]
  case h_2 hb =>
    refine ⟨rfl, rfl, rfl, rfl, fun d => ?_⟩
    dsimp only
    rw [htaken, if_neg (c := c.lastBenefitTarget = some d) (by simp [hb])]

theorem retarget (ha : c.artifacts.get? key = some a) (hne : c.lastBenefitTarget ≠ some a) :
    (c.retarget a).Sound pins held := by
  obtain ⟨hl, hb, -, -, hcells⟩ := hs.retarget_cells hne
  refine hs.of_cells hl (fun {key' d} hd => ?_) hs.pins_resident hs.held_resident fun h => ?_
  · have hcount := hs.counts hd
    have howners := hcount.owners
    rw [hcells, hb]
    refine ⟨⟨rfl, rfl, rfl, rfl, rfl⟩, hcount.pinned, hcount.references, ?_⟩
    by_cases hda : d = a
    · subst hda
      rw [if_neg hne] at howners
      simp only [if_true]
      omega
    · have had : a ≠ d := Ne.symm hda
      simp only [hda, had, if_false, Option.some.injEq]
      by_cases hlast : c.lastBenefitTarget = some d
      · rw [if_pos hlast] at howners ⊢
        omega
      · rw [if_neg hlast] at howners ⊢
        exact howners
  · rw [hb] at h
    exact ⟨key, Option.some.inj h ▸ ha⟩

theorem recordBenefit (key : ArtifactKey) (benefit : Nat) :
    (c.recordBenefit key benefit).1.Sound pins held := by
  unfold CodeCache.recordBenefit
  dsimp only
  split
  · exact hs.nextTick.credit _ benefit
  case h_2 hmiss =>
    split
    case h_1 a ha =>
      refine (hs.nextTick.retarget ha fun h => ?_).credit a benefit
      have hkey := hs.nextTick.key_eq ha
      rw [h, Option.filter_some, if_pos (by simpa using hkey)] at hmiss
      cases hmiss
    case h_2 => exact hs.nextTick

theorem pin (key : ArtifactKey) :
    (c.pin key).1.Sound ((c.pin key).2.toList ++ pins) held := by
  unfold CodeCache.pin
  dsimp only
  split
  case h_1 a ha =>
    split
    · exact hs.nextTick
    · exact hs.nextTick.addPin ha
  case h_2 => exact hs.nextTick

/-! ## Invalidation -/

theorem invalidateDeferred (function : FunctionKey) :
    (c.invalidateDeferred function).Sound pins held := by
  refine hs.of_quiet rfl rfl fun d => ?_
  unfold CodeCache.invalidateDeferred
  dsimp only
  split
  · exact ⟨⟨rfl, rfl, rfl, rfl, rfl⟩, rfl, rfl, rfl⟩
  · exact .refl _

end Sound

theorem nextInvalidatedCandidate_eq_some (h : c.nextInvalidatedCandidate = some key) :
    ∃ a, c.artifacts.get? key = some a ∧ (c.cells a).invalidated = true ∧
      (c.cells a).executionPins = 0 ∧ (c.cells a).deoptReferences = 0 := by
  obtain ⟨entry, hentry, rfl⟩ := Option.map_eq_some_iff.mp h
  have hmem := List.mem_filter.mp (List.argmin_mem hentry)
  have hchosen := hmem.2
  simp only [CachedArtifact.isEvictable, Bool.and_eq_true, decide_eq_true_eq] at hchosen
  exact ⟨entry.2, mem_entries.mp hmem.1, hchosen.1, hchosen.2⟩

/-- What reclamation leaves: everything that is not invalidated. -/
structure Reclaimed (c : CodeCache) (pins : List Address) (c' : CodeCache) : Prop where
  sound : c'.Sound pins []
  within : c.Within → c'.Within
  charged_le : c'.chargedBytes ≤ c.chargedBytes
  frame_eq : c'.frame = c.frame
  content_eq : ∀ d, c'.content d = c.content d
  get?_eq : ∀ {key a}, c'.artifacts.get? key = some a → c.artifacts.get? key = some a
  kept : ∀ {key a}, c.artifacts.get? key = some a → (c.cells a).invalidated = false →
    c'.artifacts.get? key = some a

namespace Reclaimed

theorem refl (hs : c.Sound pins []) : c.Reclaimed pins c :=
  ⟨hs, id, Nat.le_refl _, rfl, fun _ => rfl, id, fun h _ => h⟩

theorem trans {c'' : CodeCache} (h : c.Reclaimed pins c') (h' : c'.Reclaimed pins c'') :
    c.Reclaimed pins c'' where
  sound := h'.sound
  within := h'.within ∘ h.within
  charged_le := h'.charged_le.trans h.charged_le
  frame_eq := h'.frame_eq.trans h.frame_eq
  content_eq d := (h'.content_eq d).trans (h.content_eq d)
  get?_eq := h.get?_eq ∘ h'.get?_eq
  kept ha hvalid :=
    h'.kept (h.kept ha hvalid) ((content_invalidated (h.content_eq _)).trans hvalid)

theorem remove (hs : c.Sound pins []) (h : c.nextInvalidatedCandidate = some key) :
    c.Reclaimed pins (c.remove key) := by
  obtain ⟨a, ha, hinvalidated, hp, hr⟩ := nextInvalidatedCandidate_eq_some h
  have hcharges := hs.remove_charges ha hp hr
  have hframe := remove_frame c key
  have hframe' := hframe
  simp only [frame, limits, Prod.mk.injEq] at hframe'
  obtain ⟨⟨hbytes, hseparate, hcode, hmetadata⟩, -⟩ := hframe'
  refine ⟨hs.remove ha hp hr, fun hw => ⟨?_, ?_, ?_⟩, by omega, hframe, remove_content c key,
    fun hd => ?_, fun {key' d} hd hvalid => ?_⟩
  · have := hw.bytes
    omega
  · intro hsep
    have := hw.code (hseparate ▸ hsep)
    omega
  · intro hsep
    have := hw.metadata (hseparate ▸ hsep)
    omega
  · exact (hs.remove_get? ha hd).1
  · rw [remove_artifacts ha, get?_erase_ne _ fun hk => ?_]
    · exact hd
    · subst hk
      cases ha.symm.trans hd
      cases hinvalidated.symm.trans hvalid

end Reclaimed

theorem collectLoop_reclaimed (budget : Nat) :
    ∀ (fuel : Nat) {c : CodeCache} (n : Nat), c.Sound pins [] →
      c.Reclaimed pins (collectLoop budget fuel (c, n)).1
  | 0, _, _, hs => .refl hs
  | fuel + 1, c, n, hs => by
    unfold collectLoop
    split
    · split
      case h_1 key h =>
        have hremoved := Reclaimed.remove hs h
        exact hremoved.trans (collectLoop_reclaimed budget fuel (n + 1) hremoved.sound)
      case h_2 => exact .refl hs
    · exact .refl hs

theorem collectInvalidatedWithBudget_reclaimed (hs : c.Sound pins []) (budget : Nat) :
    c.Reclaimed pins (c.collectInvalidatedWithBudget budget).1 :=
  collectLoop_reclaimed budget _ 0 hs

/-- The reclamation flag is not part of the map. -/
theorem Reclaimed.flag (flag : Bool) (h : c.Reclaimed pins c') :
    c.Reclaimed pins { c' with reclaimNeeded := flag } :=
  ⟨h.sound.of_quiet rfl rfl fun _ => .refl _, fun hw => (h.within hw).of_ledger rfl, h.charged_le,
    h.frame_eq, h.content_eq, h.get?_eq, h.kept⟩

theorem collectAndSignal_reclaimed (hs : c.Sound pins []) (budget : Nat) :
    c.Reclaimed pins (c.collectAndSignal budget).1 := by
  have hflag : c.Reclaimed pins { c with reclaimNeeded := false } := (Reclaimed.refl hs).flag false
  have hcollected := hflag.trans (collectInvalidatedWithBudget_reclaimed hflag.sound budget)
  unfold collectAndSignal
  dsimp only
  split
  · exact hcollected.flag true
  · exact hcollected

theorem collectInvalidated_reclaimed (hs : c.Sound pins []) :
    c.Reclaimed pins c.collectInvalidated.1 :=
  collectAndSignal_reclaimed hs usizeMax

theorem pollReclamationWithBudget_reclaimed (hs : c.Sound pins []) (budget : Nat) :
    c.Reclaimed pins (c.pollReclamationWithBudget budget).1 := by
  unfold pollReclamationWithBudget
  split
  · exact collectAndSignal_reclaimed hs budget
  · exact .refl hs

theorem pollReclamation_reclaimed (hs : c.Sound pins []) :
    c.Reclaimed pins c.pollReclamation.1 :=
  pollReclamationWithBudget_reclaimed hs usizeMax

/-! ## What is left alone -/

section

variable (c : CodeCache)

@[simp] theorem touch_ledger (key : ArtifactKey) :
    (c.touch key).1.ledger = c.ledger := by
  unfold touch
  dsimp only
  split <;> rfl

@[simp] theorem retarget_ledger (a : Address) : (c.retarget a).ledger = c.ledger := by
  unfold retarget
  dsimp only
  split
  · rw [dropArc_ledger]
    rfl
  · rfl

@[simp] theorem recordBenefit_ledger (key : ArtifactKey) (benefit : Nat) :
    (c.recordBenefit key benefit).1.ledger = c.ledger := by
  unfold recordBenefit
  dsimp only
  split
  · rfl
  · split
    · exact (retarget_ledger c.nextTick _)
    · rfl

@[simp] theorem pin_ledger (key : ArtifactKey) :
    (c.pin key).1.ledger = c.ledger := by
  unfold pin
  dsimp only
  split
  · split <;> rfl
  · rfl

@[simp] theorem dropPin_ledger (a : Address) : (c.dropPin a).ledger = c.ledger := by
  simp [dropPin]

end

theorem content_essence (h : c'.content a = c.content a) :
    (c'.cells a).essence = (c.cells a).essence := by
  have h' := congrArg CachedArtifact.essence h
  exact h'

theorem modify_essence {f : CachedArtifact → CachedArtifact}
    (h : (f (c.cells a)).essence = (c.cells a).essence) (d : Address) :
    ((c.modify a f).cells d).essence = (c.cells d).essence := by
  rw [modify_cells]
  by_cases hd : d = a
  · subst hd
    rw [update_self, h]
  · rw [update_of_ne hd]

section

variable (c : CodeCache)

theorem dropArc_essence (a d : Address) :
    ((c.dropArc a).cells d).essence = (c.cells d).essence :=
  content_essence (dropArc_content c a d)

theorem touch_essence (key : ArtifactKey) (d : Address) :
    ((c.touch key).1.cells d).essence = (c.cells d).essence := by
  unfold touch
  dsimp only
  split
  · dsimp only
    refine (modify_essence ?_ d).trans ?_ <;> rfl
  · rfl

theorem retarget_essence (a d : Address) :
    ((c.retarget a).cells d).essence = (c.cells d).essence := by
  unfold retarget
  dsimp only
  split
  · rw [dropArc_essence]
    dsimp only
    exact modify_essence (by rfl) d
  · dsimp only
    exact modify_essence (by rfl) d

theorem recordBenefit_essence (key : ArtifactKey) (benefit : Nat) (d : Address) :
    ((c.recordBenefit key benefit).1.cells d).essence = (c.cells d).essence := by
  unfold recordBenefit
  dsimp only
  split
  · dsimp only
    refine (modify_essence ?_ d).trans ?_ <;> rfl
  · split
    · dsimp only [credit]
      refine (modify_essence ?_ d).trans (retarget_essence c.nextTick _ d)
      rfl
    · rfl

theorem pin_essence (key : ArtifactKey) (d : Address) :
    ((c.pin key).1.cells d).essence = (c.cells d).essence := by
  unfold pin
  dsimp only
  split
  · split
    · rfl
    · dsimp only
      refine (modify_essence ?_ d).trans ?_ <;> rfl
  · rfl

theorem dropPin_essence (a d : Address) :
    ((c.dropPin a).cells d).essence = (c.cells d).essence := by
  unfold dropPin
  dsimp only
  rw [dropArc_essence, signal_cells]
  exact modify_essence (by rfl) d

end

theorem ledger_limits (h : c'.ledger = c.ledger) : c'.limits = c.limits :=
  congrArg Prod.fst (ledger_frame h)

end CodeCache

/-! ## Runs -/

/-- The two ways a cache is limited. -/
inductive CacheLimits where
  | shared (maxBytes : Nat)
  | separate (maxCodeBytes maxMetadataBytes : Nat)
  deriving DecidableEq, Repr

/-- The empty cache with some limits. -/
def CacheLimits.cache : CacheLimits → CodeCache
  | .shared maxBytes => CodeCache.new maxBytes
  | .separate maxCodeBytes maxMetadataBytes =>
    CodeCache.newWithSeparateLimits maxCodeBytes maxMetadataBytes

/-- A cache and the execution pins that are alive. -/
structure CacheSystem where
  cache : CodeCache
  pins : List Address

inductive CacheOp where
  | insert (artifact : CompiledArtifact)
  | touch (key : ArtifactKey)
  | recordBenefit (key : ArtifactKey) (benefit : Nat)
  | pin (key : ArtifactKey)
  | dropPin (pin : Address)
  | invalidate (function : FunctionKey)
  | invalidateDeferred (function : FunctionKey)
  | collectInvalidated
  | collectInvalidatedWithBudget (budget : Nat)
  | pollReclamation
  | pollReclamationWithBudget (budget : Nat)

/-- The resident optimizing artifacts that deoptimize to `a`. -/
def CodeCache.deoptReferrers (c : CodeCache) (a : Address) : List (ArtifactKey × Address) :=
  c.artifacts.entries.filter fun entry =>
    entry.1.tier = .optimizing && (c.cells entry.2).deoptTarget = some a

def CodeCache.residents (c : CodeCache) : List CachedArtifact := c.artifacts.values.map c.cells

namespace CacheSystem

/-- One operation; only a live pin can be dropped. -/
def step [TypeSizes] (s : CacheSystem) : CacheOp → CacheSystem
  | .insert artifact => { s with cache := (s.cache.insert artifact).1 }
  | .touch key => { s with cache := (s.cache.touch key).1 }
  | .recordBenefit key benefit => { s with cache := (s.cache.recordBenefit key benefit).1 }
  | .pin key => ⟨(s.cache.pin key).1, (s.cache.pin key).2.toList ++ s.pins⟩
  | .dropPin pin => if pin ∈ s.pins then ⟨s.cache.dropPin pin, s.pins.erase pin⟩ else s
  | .invalidate function => { s with cache := (s.cache.invalidate function).1 }
  | .invalidateDeferred function => { s with cache := s.cache.invalidateDeferred function }
  | .collectInvalidated => { s with cache := s.cache.collectInvalidated.1 }
  | .collectInvalidatedWithBudget budget =>
    { s with cache := (s.cache.collectInvalidatedWithBudget budget).1 }
  | .pollReclamation => { s with cache := s.cache.pollReclamation.1 }
  | .pollReclamationWithBudget budget =>
    { s with cache := (s.cache.pollReclamationWithBudget budget).1 }

/-- What every reachable system satisfies. -/
structure Ok [TypeSizes] (limits : CacheLimits) (s : CacheSystem) : Prop where
  sound : s.cache.Sound s.pins []
  within : s.cache.Within
  bounded : s.cache.chargedBytes ≤ usizeMax
  limits_eq : s.cache.limits = limits.cache.limits
  priced : ∀ {key a}, s.cache.artifacts.get? key = some a → (s.cache.cells a).Priced

namespace Ok

variable [TypeSizes] {limits : CacheLimits} {s : CacheSystem}

theorem of_ledger {c : CodeCache} {pins : List Address} (h : s.Ok limits)
    (hs : c.Sound pins []) (hl : c.ledger = s.cache.ledger)
    (hessence : ∀ d, (c.cells d).essence = (s.cache.cells d).essence) : Ok limits ⟨c, pins⟩ where
  sound := hs
  within := h.within.of_ledger hl
  bounded := (ledger_charges hl).1.trans_le h.bounded
  limits_eq := (ledger_limits hl).trans h.limits_eq
  priced ha := (h.priced (ledger_artifacts hl ▸ ha)).of_essence (hessence _)

theorem of_reclaimed {c : CodeCache} (h : s.Ok limits) (hc : s.cache.Reclaimed s.pins c) :
    Ok limits ⟨c, s.pins⟩ where
  sound := hc.sound
  within := hc.within h.within
  bounded := hc.charged_le.trans h.bounded
  limits_eq := (congrArg Prod.fst hc.frame_eq).trans h.limits_eq
  priced ha := (h.priced (hc.get?_eq ha)).of_essence (content_essence (hc.content_eq _))

theorem invalidateDeferred (h : s.Ok limits) (function : FunctionKey) :
    Ok limits ⟨s.cache.invalidateDeferred function, s.pins⟩ := by
  refine ⟨h.sound.invalidateDeferred function, h.within.of_ledger rfl, h.bounded, h.limits_eq,
    fun {key a} ha => ?_⟩
  unfold CodeCache.invalidateDeferred
  dsimp only
  split
  · exact ⟨(h.priced ha).chargeBytes, (h.priced ha).codeBytes, (h.priced ha).metadataBytes⟩
  · exact h.priced ha

end Ok

theorem initial_ok [TypeSizes] (limits : CacheLimits) : Ok limits ⟨limits.cache, []⟩ := by
  have hempty : limits.cache.artifacts = OrdMap.empty := by cases limits <;> rfl
  have hnone : ∀ {key a}, limits.cache.artifacts.get? key ≠ some a := by simp [hempty]
  have htotal : ∀ g, limits.cache.total g = 0 := fun g => by simp [CodeCache.total, hempty, OrdMap.empty]
  have hbenefit : limits.cache.lastBenefitTarget = none := by cases limits <;> rfl
  refine ⟨⟨?_, ?_, ?_, ?_, ?_, ?_, ?_, nofun, nofun, by simp [hbenefit], ?_, ?_, ?_, ?_⟩, ⟨?_, ?_, ?_⟩,
    ?_, rfl, ?_⟩
  case refine_8 | refine_9 | refine_10 => rw [htotal]; cases limits <;> rfl
  case refine_11 => cases limits <;> nofun
  case refine_12 | refine_13 | refine_14 | refine_15 => cases limits <;> simp [CacheLimits.cache, CodeCache.new, CodeCache.newWithSeparateLimits]
  all_goals exact fun h => absurd h hnone

variable [TypeSizes] {limits : CacheLimits}

/-- Every operation keeps the counters exact and the charges within the limits. -/
theorem step_ok (s : CacheSystem) (op : CacheOp) (h : s.Ok limits) : (s.step op).Ok limits := by
  have hs := h.sound
  cases op with
  | insert artifact =>
    rcases insert_spec hs artifact with ⟨c, e, heq, hrefused⟩ | ⟨c, E, heq, hinserted⟩
    · simp only [step, heq]
      exact h.of_ledger hrefused.sound hrefused.ledger_eq fun d =>
        content_essence (hrefused.content_eq d)
    · simp only [step, heq]
      refine ⟨hinserted.sound, hinserted.within, hinserted.bounded,
        hinserted.limits_eq.trans h.limits_eq, fun {key a} ha => ?_⟩
      rw [hinserted.get?_eq] at ha
      split at ha
      · cases ha
        exact hinserted.priced
      · split at ha
        · cases ha
        · exact (h.priced ha).of_essence
            (content_essence (hinserted.content_eq a (hs.fresh ha).ne))
  | touch key =>
    exact h.of_ledger (hs.touch key) (touch_ledger ..) (touch_essence _ key)
  | recordBenefit key benefit =>
    exact h.of_ledger (hs.recordBenefit key benefit) (recordBenefit_ledger ..)
      (recordBenefit_essence _ key benefit)
  | pin key => exact h.of_ledger (hs.pin key) (pin_ledger ..) (pin_essence _ key)
  | dropPin pin =>
    unfold step
    dsimp only
    split
    case isTrue hpin =>
      exact h.of_ledger (hs.dropPin hpin) (dropPin_ledger ..)
        (dropPin_essence _ pin)
    case isFalse => exact h
  | invalidate function =>
    have hmarked := h.invalidateDeferred function
    exact hmarked.of_reclaimed (collectInvalidated_reclaimed hmarked.sound)
  | invalidateDeferred function => exact h.invalidateDeferred function
  | collectInvalidated => exact h.of_reclaimed (collectInvalidated_reclaimed hs)
  | collectInvalidatedWithBudget budget =>
    exact h.of_reclaimed (collectInvalidatedWithBudget_reclaimed hs budget)
  | pollReclamation => exact h.of_reclaimed (pollReclamation_reclaimed hs)
  | pollReclamationWithBudget budget =>
    exact h.of_reclaimed (pollReclamationWithBudget_reclaimed hs budget)

omit [TypeSizes] in
theorem sum_indicator {α : Type} (p : α → Bool) :
    ∀ l : List α, (l.map fun x => if p x then 1 else 0).sum = (l.filter p).length
  | [] => rfl
  | x :: rest => by
    by_cases hx : p x <;> simp [hx, sum_indicator p rest, Nat.add_comm]

omit [TypeSizes] in
theorem total_refersTo {c : CodeCache} {pins : List Address} (hs : c.Sound pins []) (a : Address) :
    c.total (CodeCache.refersTo a) = (c.deoptReferrers a).length := by
  have hsum := sum_indicator (fun entry : ArtifactKey × Address =>
    decide ((c.cells entry.2).deoptTarget = some a)) c.artifacts.entries
  simp only [decide_eq_true_eq] at hsum
  refine hsum.trans (congrArg List.length (List.filter_congr fun entry hentry => ?_))
  -- only optimizing artifacts own a deopt pin
  cases htier : entry.1.tier with
  | optimizing => simp
  | baseline => simp [hs.no_target (mem_entries.mp hentry) htier]

/-- The books of a cache with its live execution pins. -/
structure Accounted (limits : CacheLimits) (s : CacheSystem) : Prop where
  charged : s.cache.chargedBytes = (s.cache.residents.map (·.chargeBytes)).sum
  chargedCode : s.cache.chargedCodeBytes = (s.cache.residents.map (·.codeBytes)).sum
  chargedMetadata : s.cache.chargedMetadataBytes = (s.cache.residents.map (·.metadataBytes)).sum
  priced : ∀ x ∈ s.cache.residents, x.Priced
  bytes : s.cache.chargedBytes ≤ limits.cache.maxBytes
  separate : limits.cache.separateLimits = true →
    s.cache.chargedCodeBytes ≤ limits.cache.maxCodeBytes ∧
      s.cache.chargedMetadataBytes ≤ limits.cache.maxMetadataBytes
  baseline : ∀ key a, s.cache.artifacts.get? key = some a → key.tier = .optimizing →
    ∃ b, s.cache.artifacts.get? (key.withTier .baseline) = some b ∧
      (s.cache.cells a).deoptTarget = some b
  references : ∀ key a, s.cache.artifacts.get? key = some a →
    (s.cache.cells a).deoptReferences = (s.cache.deoptReferrers a).length
  pins : ∀ key a, s.cache.artifacts.get? key = some a →
    (s.cache.cells a).executionPins = s.pins.count a
  pinned : ∀ a ∈ s.pins, ∃ key, s.cache.artifacts.get? key = some a
  removed : ∀ r ∈ s.cache.removals, r.executionPins = 0 ∧ r.deoptReferences = 0

theorem Ok.accounted {s : CacheSystem} (h : s.Ok limits) : s.Accounted limits := by
  have hs := h.sound
  have hlimits := h.limits_eq
  simp only [CodeCache.limits, Prod.mk.injEq] at hlimits
  obtain ⟨hbytes, hseparate, hcode, hmetadata⟩ := hlimits
  have hsum : ∀ g, s.cache.total g = (s.cache.residents.map g).sum := fun g => by
    simp [CodeCache.total, CodeCache.residents, OrdMap.values, comp_def]
  constructor
  case charged => rw [hs.charged, hsum]
  case chargedCode => rw [hs.chargedCode, hsum]
  case chargedMetadata => rw [hs.chargedMetadata, hsum]
  case priced =>
    intro x hx
    simp only [CodeCache.residents, OrdMap.values, List.map_map, List.mem_map] at hx
    obtain ⟨entry, hentry, rfl⟩ := hx
    exact h.priced (mem_entries.mp hentry)
  case bytes => exact hbytes ▸ h.within.bytes
  case separate =>
    intro hsep
    rw [← hcode, ← hmetadata]
    exact ⟨h.within.code (hseparate.trans hsep), h.within.metadata (hseparate.trans hsep)⟩
  case baseline =>
    intro key a ha htier
    obtain ⟨b, hb, hres⟩ := hs.target ha htier
    exact ⟨b, hres, hb⟩
  case references =>
    intro key a ha
    rw [hs.references ha, total_refersTo hs]
    rfl
  case pins => exact fun _ _ ha => hs.pinned ha
  case pinned => exact fun _ ha => hs.pins_resident ha
  case removed => exact fun _ hr => hs.removed hr

end CacheSystem

/-- After every run from an empty cache the counters are the sums over the
resident artifacts and respect the limits, every optimizing artifact's baseline
is resident and the one it was inserted against, the reference counts count the
resident referrers, live pins keep their artifacts, and nothing was ever removed
that had a pin or a reference. -/
theorem cache_accounting [TypeSizes] (limits : CacheLimits) (ops : List CacheOp) :
    (runs CacheSystem.step ⟨limits.cache, []⟩ ops).Accounted limits :=
  (runs_inv (P := CacheSystem.Ok limits) CacheSystem.step_ok
    (CacheSystem.initial_ok limits) ops).accounted

end QuickJit
