import QuickJit.Runtime.CacheRuns

/-
  The cache's memo of the last benefit target.

  `withoutMemo` is the cache after the memo has given up its `Arc`. The memo's
  artifact is resident and has another owner (`Sound.one_lt_strong`), so giving
  it up destroys nothing, and every operation of a sound cache commutes with it:
  the replies are the same and so are the caches up to the memo. Crediting a
  benefit through the memo is then `creditResident`, which looks the artifact up
  every time.
-/

namespace QuickJit

open Function

variable {artifact : CompiledArtifact} {selected : List ArtifactKey} {charge metadata : Nat}

namespace CodeCache

variable {c c' : CodeCache} {pins held : List Address} {key : ArtifactKey} {a : Address}

/-- The cache after its benefit target has given up its `Arc`. -/
def withoutMemo (c : CodeCache) : CodeCache :=
  { c with
    lastBenefitTarget := none
    cells := fun a => { c.cells a with
      strong := if c.lastBenefitTarget = some a then fetchSub (c.cells a).strong
        else (c.cells a).strong } }

/-- `record_benefit` of a cache without a benefit target. -/
def creditResident (c : CodeCache) (key : ArtifactKey) (benefit : Nat) :
    CodeCache × Outcome CacheError Unit :=
  let c := c.nextTick
  match c.artifacts.get? key with
  | some a => (c.credit a benefit, .ok ())
  | none => (c, Outcome.fail .missingArtifact)

theorem withoutMemo_of_none (h : c.lastBenefitTarget = none) : c.withoutMemo = c := by
  cases c
  simp only at h
  subst h
  rfl

theorem eq_of_ledger (hl : c'.ledger = c.ledger) (hcells : c'.cells = c.cells)
    (htarget : c'.lastBenefitTarget = c.lastBenefitTarget) (hclock : c'.clock = c.clock)
    (hflag : c'.reclaimNeeded = c.reclaimNeeded) : c' = c := by
  cases c
  cases c'
  simp only [ledger, CodeCache.mk.injEq] at *
  simp [*]

/-! ## Cells -/

theorem withoutMemo_cells_self (h : c.lastBenefitTarget = some a) :
    c.withoutMemo.cells a = { c.cells a with strong := fetchSub (c.cells a).strong } := by
  show CachedArtifact.mk .. = _
  rw [if_pos h]

theorem withoutMemo_cells_ne (h : c.lastBenefitTarget ≠ some a) :
    c.withoutMemo.cells a = c.cells a := by
  show CachedArtifact.mk .. = _
  rw [if_neg h]

/-- Writing a cell commutes with giving the memo up if the write commutes with
the loss of an owner. -/
theorem withoutMemo_modify {f : CachedArtifact → CachedArtifact}
    (hf : c.lastBenefitTarget = some a →
      f { c.cells a with strong := fetchSub (c.cells a).strong } =
        { f (c.cells a) with strong := fetchSub (f (c.cells a)).strong }) :
    (c.modify a f).withoutMemo = c.withoutMemo.modify a f := by
  refine eq_of_ledger rfl (funext fun d => ?_) rfl rfl rfl
  have hcell : ∀ {d}, (c.modify a f).lastBenefitTarget = some d ↔ c.lastBenefitTarget = some d := .rfl
  rw [modify_cells]
  by_cases hd : d = a
  · subst hd
    rw [update_self]
    by_cases htarget : c.lastBenefitTarget = some d
    · rw [withoutMemo_cells_self (hcell.mpr htarget), withoutMemo_cells_self htarget, modify_cells,
        update_self]
      exact (hf htarget).symm
    · rw [withoutMemo_cells_ne (mt hcell.mp htarget), withoutMemo_cells_ne htarget, modify_cells,
        update_self]
  · rw [update_of_ne hd]
    by_cases htarget : c.lastBenefitTarget = some d
    · rw [withoutMemo_cells_self (hcell.mpr htarget), withoutMemo_cells_self htarget, modify_cells,
        update_of_ne hd]
    · rw [withoutMemo_cells_ne (mt hcell.mp htarget), withoutMemo_cells_ne htarget, modify_cells,
        update_of_ne hd]

section

variable (c : CodeCache)

theorem withoutMemo_release (a : Address) :
    (c.release a).withoutMemo = c.withoutMemo.release a :=
  withoutMemo_modify fun _ => rfl

theorem withoutMemo_credit (a : Address) (benefit : Nat) :
    (c.credit a benefit).withoutMemo = c.withoutMemo.credit a benefit :=
  withoutMemo_modify fun _ => rfl

theorem withoutMemo_signal (previous : Nat) (a : Address) :
    (c.signal previous a).withoutMemo = c.withoutMemo.signal previous a := by
  unfold signal
  by_cases h : previous = 1 ∧ (c.cells a).invalidated
  · rw [if_pos h, if_pos (show _ ∧ (c.withoutMemo.cells a).invalidated = true from h)]
    rfl
  · rw [if_neg h, if_neg (show ¬ (_ ∧ (c.withoutMemo.cells a).invalidated = true) from h)]

theorem withoutMemo_dropDeoptPin (a : Address) :
    (c.dropDeoptPin a).withoutMemo = c.withoutMemo.dropDeoptPin a := by
  unfold dropDeoptPin
  rw [withoutMemo_release, withoutMemo_signal, withoutMemo_modify fun _ => rfl]
  rfl

theorem withoutMemo_unhold (target : Option Address) :
    (c.unhold target).withoutMemo = c.withoutMemo.unhold target := by
  cases target with
  | none => rfl
  | some a => exact withoutMemo_dropDeoptPin c a

theorem dropArc_eq (a : Address) :
    c.dropArc a = if fetchSub (c.cells a).strong = 0 then
      (c.release a).unhold (c.cells a).deoptTarget else c.release a := by
  have hcell : (c.release a).cells a = { c.cells a with strong := fetchSub (c.cells a).strong } :=
    update_self ..
  unfold dropArc
  dsimp only
  rw [hcell]
  dsimp only
  split
  · cases (c.cells a).deoptTarget <;> rfl
  · rfl

end

/-- The `Arc` dropped is the last one with the memo exactly if it is without it. -/
theorem withoutMemo_dropArc (h : c.lastBenefitTarget = some a → 2 < (c.cells a).strong) :
    (c.dropArc a).withoutMemo = c.withoutMemo.dropArc a := by
  have hlast : fetchSub (c.withoutMemo.cells a).strong = 0 ↔ fetchSub (c.cells a).strong = 0 := by
    show fetchSub (if c.lastBenefitTarget = some a then fetchSub (c.cells a).strong
      else (c.cells a).strong) = 0 ↔ _
    split
    case isTrue htarget =>
      have hstrong := h htarget
      rw [fetchSub_pos (n := fetchSub _) (by rw [fetchSub_pos] <;> omega), fetchSub_pos] <;> omega
    case isFalse => rfl
  rw [dropArc_eq, dropArc_eq]
  by_cases hzero : fetchSub (c.cells a).strong = 0
  · rw [if_pos hzero, if_pos (hlast.mpr hzero), withoutMemo_unhold, withoutMemo_release]
    rfl
  · rw [if_neg hzero, if_neg (mt hlast.mp hzero), withoutMemo_release]

/-! ## Removal -/

namespace Sound

section

variable (hs : c.Sound pins held)

include hs

/-- The benefit target has an owner besides the memo. -/
theorem one_lt_strong (h : c.lastBenefitTarget = some a) :
    1 < (c.cells a).strong := by
  obtain ⟨key, ha⟩ := hs.benefit_resident h
  have howners := hs.owners ha
  rw [if_pos h] at howners
  omega

theorem withoutMemo_clearBenefitTarget (key : ArtifactKey) :
    (c.clearBenefitTarget key).withoutMemo = c.withoutMemo := by
  unfold CodeCache.clearBenefitTarget
  split
  case h_1 b hb =>
    split
    · have hstrong := hs.one_lt_strong hb
      rw [hs.forgetBenefit_eq hb, withoutMemo_release, withoutMemo_of_none rfl]
      refine eq_of_ledger rfl (funext fun d => ?_) rfl rfl rfl
      rw [release_cells]
      by_cases hd : d = b
      · subst hd
        rw [update_self, withoutMemo_cells_self hb]
      · rw [update_of_ne hd,
          withoutMemo_cells_ne fun h => hd (Option.some.inj (h.symm.trans hb))]
    · rfl
  case h_2 => rfl

theorem withoutMemo_remove (key : ArtifactKey) :
    (c.remove key).withoutMemo = c.withoutMemo.remove key := by
  have hclear : c.withoutMemo.clearBenefitTarget key = c.withoutMemo := rfl
  have hart := ledger_artifacts (clearBenefitTarget_ledger c key)
  have hmemo := hs.withoutMemo_clearBenefitTarget key
  unfold CodeCache.remove
  dsimp only
  rw [hclear, hart, show c.withoutMemo.artifacts = c.artifacts from rfl]
  cases ha : c.artifacts.get? key with
  | none => exact hmemo
  | some a =>
    have hother := (hs.clearBenefitTarget ha).2.2.1
    dsimp only
    have hunlink : ((c.clearBenefitTarget key).unlink key a).withoutMemo =
        (c.clearBenefitTarget key).withoutMemo.unlink key a := rfl
    rw [withoutMemo_dropArc (c := (c.clearBenefitTarget key).unlink key a) fun h => absurd h hother,
      hunlink, hmemo]

/-! ## Insertion -/

theorem withoutMemo_hold (target : Option Address) :
    (c.hold target).withoutMemo = c.withoutMemo.hold target := by
  cases target with
  | none => rfl
  | some a =>
    refine withoutMemo_modify fun h => ?_
    have hstrong := hs.one_lt_strong h
    have hcount : fetchSub (c.cells a).strong + 1 = fetchSub ((c.cells a).strong + 1) := by
      rw [fetchSub_succ, fetchSub_pos (by omega)]
      omega
    dsimp only
    rw [hcount]

/-- The removals of an insertion, each of which keeps the cache sound. -/
theorem withoutMemo_makeRoom {bytes code : Nat} (hrep : c.Replaceable key)
    (h : c.plan key bytes code metadata = .ok selected) :
    (c.makeRoom key selected).withoutMemo = c.withoutMemo.makeRoom key selected := by
  simp only [plan, Outcome.bind_eq_ok] at h
  obtain ⟨p, hiterate, hselected⟩ := h
  have hroom : c.Planned pins held key p ∧
      (c.makeRoom key p.selected).withoutMemo = c.withoutMemo.makeRoom key p.selected := by
    refine (Outcome.iterate_inv (P := fun p => c.Planned pins held key p ∧
      (c.makeRoom key p.selected).withoutMemo = c.withoutMemo.makeRoom key p.selected)
      ?_ hiterate ⟨initialPlan_planned hs hrep, ?_⟩).1
    · rintro p p' ⟨hplanned, hroom⟩ hstep
      obtain ⟨key', a, -, rfl⟩ := planStep_eq_some hstep
      refine ⟨hplanned.step hstep, ?_⟩
      dsimp only
      rw [makeRoom_append, makeRoom_append, hplanned.cleared.sound.withoutMemo_remove, hroom]
    · show (if c.artifacts.contains key then c.remove key else c).withoutMemo =
        if c.artifacts.contains key then c.withoutMemo.remove key else c.withoutMemo
      split
      · exact hs.withoutMemo_remove key
      · rfl
  cases hselected
  exact hroom.2

end

theorem withoutMemo_place {target : Option Address} (h : c.lastBenefitTarget ≠ some c.next) :
    (c.place artifact target charge metadata).withoutMemo =
      c.withoutMemo.place artifact target charge metadata := by
  refine eq_of_ledger rfl (funext fun d => ?_) rfl rfl rfl
  by_cases hd : d = c.next
  · subst hd
    rw [withoutMemo_cells_ne (c := c.place artifact target charge metadata) h, place_cells_new]
    exact (place_cells_new c.withoutMemo ..).symm
  · rw [place_cells_old (c := c.withoutMemo) hd]
    by_cases htarget : c.lastBenefitTarget = some d
    · rw [withoutMemo_cells_self (c := c.place artifact target charge metadata) htarget,
        place_cells_old hd, withoutMemo_cells_self htarget]
    · rw [withoutMemo_cells_ne (c := c.place artifact target charge metadata) htarget,
        place_cells_old hd, withoutMemo_cells_ne htarget]

theorem withoutMemo_commit (target : Option Address) (hs : c.Sound pins held)
    (h : c.reserve artifact.key charge artifact.codeBytes metadata = .ok selected) :
    c.withoutMemo.commit artifact target charge metadata selected =
      ((c.commit artifact target charge metadata selected).1.withoutMemo,
        (c.commit artifact target charge metadata selected).2) := by
  obtain ⟨hrep, hcleared, hfits⟩ := reserve_fits hs h
  have hroom : (c.makeRoom artifact.key selected).withoutMemo =
      c.withoutMemo.makeRoom artifact.key selected := by
    simp only [reserve, Outcome.bind_eq_ok] at h
    obtain ⟨⟨_, _, _⟩, -, _, -, _, -, _, -, _, -, hplan⟩ := h
    exact withoutMemo_makeRoom hs hrep hplan
  have hticked : c.Fits (c.makeRoom artifact.key selected).nextTick charge artifact.codeBytes
      metadata :=
    ⟨hfits.bytes, hfits.codeBytes, hfits.metadataBytes, hfits.codeLimit, hfits.metadataLimit⟩
  have hticked' : c.Fits (c.makeRoom artifact.key selected).withoutMemo.nextTick charge
      artifact.codeBytes metadata :=
    ⟨hfits.bytes, hfits.codeBytes, hfits.metadataBytes, hfits.codeLimit, hfits.metadataLimit⟩
  unfold commit
  rw [← hroom, charge_eq hticked, charge_eq hticked']
  dsimp only
  rw [withoutMemo_place fun hnext => ?_]
  · rfl
  · obtain ⟨key, hkey⟩ := hcleared.sound.benefit_resident hnext
    exact (hcleared.sound.fresh hkey).ne rfl

theorem withoutMemo_insert [TypeSizes] (hs : c.Sound pins []) (artifact : CompiledArtifact) :
    c.withoutMemo.insert artifact =
      ((c.insert artifact).1.withoutMemo, (c.insert artifact).2) := by
  have hadmission : c.withoutMemo.admission artifact = c.admission artifact := rfl
  have hbaseline : c.withoutMemo.deoptBaseline artifact.key = c.deoptBaseline artifact.key := rfl
  unfold insert
  rw [hadmission, hbaseline]
  split
  · rfl
  split
  · rfl
  case h_2 charge metadata _ _ target htarget =>
  have hs₁ := hs.hold fun _ h => (deoptBaseline_eq_ok htarget).resident h
  have hreserve : (c.hold target).withoutMemo.reserve artifact.key charge artifact.codeBytes
      metadata = (c.hold target).reserve artifact.key charge artifact.codeBytes metadata := rfl
  dsimp only
  rw [← hs.withoutMemo_hold target, hreserve]
  split
  · rw [withoutMemo_unhold]
  case h_2 selected hselected => exact withoutMemo_commit target hs₁ hselected

/-! ## Use and invalidation -/

theorem withoutMemo_pin (hs : c.Sound pins held) (key : ArtifactKey) :
    c.withoutMemo.pin key = ((c.pin key).1.withoutMemo, (c.pin key).2) := by
  unfold CodeCache.pin
  dsimp only
  rw [show c.withoutMemo.nextTick.artifacts = c.nextTick.artifacts from rfl]
  split
  case h_1 a ha =>
    rw [show (c.withoutMemo.nextTick.cells a).invalidated = (c.nextTick.cells a).invalidated from rfl]
    split
    · rfl
    · rw [withoutMemo_modify fun h => ?_]
      · rfl
      have hstrong := hs.nextTick.one_lt_strong h
      have hcount : fetchSub (c.nextTick.cells a).strong + 1 =
          fetchSub ((c.nextTick.cells a).strong + 1) := by
        rw [fetchSub_succ, fetchSub_pos (by omega)]
        omega
      dsimp only
      rw [hcount]
  case h_2 => rfl

theorem withoutMemo_dropPin (hs : c.Sound pins held) (ha : a ∈ pins) :
    c.withoutMemo.dropPin a = (c.dropPin a).withoutMemo := by
  unfold CodeCache.dropPin
  dsimp only
  rw [withoutMemo_dropArc fun h => ?_, withoutMemo_signal, withoutMemo_modify fun _ => rfl]
  · rfl
  · rw [signal_lastBenefitTarget, modify_lastBenefitTarget] at h
    obtain ⟨key, hres⟩ := hs.pins_resident ha
    have howners := hs.owners hres
    rw [if_pos h, hs.pinned hres] at howners
    have hpos : 0 < pins.count a := List.count_pos_iff.mpr ha
    rw [signal_cells, modify_cells, update_self]
    show 2 < (c.cells a).strong
    omega

theorem withoutMemo_invalidateDeferred (c : CodeCache) (function : FunctionKey) :
    c.withoutMemo.invalidateDeferred function = (c.invalidateDeferred function).withoutMemo := by
  refine eq_of_ledger rfl (funext fun d => ?_) rfl rfl rfl
  have hmatched : c.withoutMemo.artifactsOf function = c.artifactsOf function := rfl
  show (if d ∈ c.withoutMemo.artifactsOf function then
      { c.withoutMemo.cells d with invalidated := true } else c.withoutMemo.cells d) =
    CachedArtifact.mk ..
  rw [hmatched]
  unfold CodeCache.invalidateDeferred
  by_cases hd : d ∈ c.artifactsOf function
  · simp only [if_pos hd]
    rfl
  · simp only [if_neg hd]
    rfl

theorem withoutMemo_collectLoop (budget : Nat) :
    ∀ (fuel : Nat) {c : CodeCache} (n : Nat), c.Sound pins [] →
      collectLoop budget fuel (c.withoutMemo, n) =
        ((collectLoop budget fuel (c, n)).1.withoutMemo, (collectLoop budget fuel (c, n)).2)
  | 0, _, _, _ => rfl
  | fuel + 1, c, n, hs => by
    have hcandidate : c.withoutMemo.nextInvalidatedCandidate = c.nextInvalidatedCandidate := rfl
    unfold collectLoop
    rw [hcandidate]
    split
    · split
      case h_1 key h =>
        rw [← hs.withoutMemo_remove key]
        exact withoutMemo_collectLoop budget fuel (n + 1) (Reclaimed.remove hs h).sound
      case h_2 => rfl
    · rfl

theorem withoutMemo_collectAndSignal (hs : c.Sound pins []) (budget : Nat) :
    c.withoutMemo.collectAndSignal budget =
      ((c.collectAndSignal budget).1.withoutMemo, (c.collectAndSignal budget).2) := by
  have hsound : Sound { c with reclaimNeeded := false } pins [] :=
    ((Reclaimed.refl hs).flag false).sound
  have hloop := withoutMemo_collectLoop budget c.artifacts.entries.length 0 hsound
  have hcollect : ({ c with reclaimNeeded := false }.withoutMemo.collectInvalidatedWithBudget
      budget) = ((collectInvalidatedWithBudget { c with reclaimNeeded := false } budget).1.withoutMemo,
        (collectInvalidatedWithBudget { c with reclaimNeeded := false } budget).2) := by
    unfold collectInvalidatedWithBudget
    dsimp only
    rw [show (CodeCache.withoutMemo { c with reclaimNeeded := false }).artifacts = c.artifacts from rfl,
      hloop]
    rfl
  have hflag : { c.withoutMemo with reclaimNeeded := false } =
      CodeCache.withoutMemo { c with reclaimNeeded := false } := rfl
  unfold collectAndSignal
  rw [hflag, hcollect]
  dsimp only
  split <;> rfl

theorem withoutMemo_pollReclamationWithBudget (hs : c.Sound pins []) (budget : Nat) :
    c.withoutMemo.pollReclamationWithBudget budget =
      ((c.pollReclamationWithBudget budget).1.withoutMemo,
        (c.pollReclamationWithBudget budget).2) := by
  unfold pollReclamationWithBudget
  rw [show c.withoutMemo.reclaimNeeded = c.reclaimNeeded from rfl]
  split
  · exact hs.withoutMemo_collectAndSignal budget
  · rfl

/-! ## Benefits -/

theorem withoutMemo_retarget (hs : c.Sound pins held) (hne : c.lastBenefitTarget ≠ some a) :
    (c.retarget a).withoutMemo = c.withoutMemo := by
  obtain ⟨hl, htarget, hclock, hflag, hcells⟩ := hs.retarget_cells hne
  refine eq_of_ledger hl (funext fun d => ?_) rfl hclock hflag
  by_cases hda : d = a
  · subst hda
    rw [withoutMemo_cells_self htarget, withoutMemo_cells_ne hne, hcells, if_pos rfl]
    dsimp only
    rw [fetchSub_succ]
  · rw [withoutMemo_cells_ne fun h => hda (Option.some.inj (h.symm.trans htarget)), hcells,
      if_neg hda]
    by_cases hlast : c.lastBenefitTarget = some d
    · have hstrong := hs.one_lt_strong hlast
      rw [withoutMemo_cells_self hlast, if_pos hlast, fetchSub_pos (by omega)]
    · rw [withoutMemo_cells_ne hlast, if_neg hlast]

/-- Through the memo or not, the same artifact is credited. -/
theorem withoutMemo_recordBenefit (hs : c.Sound pins held) (key : ArtifactKey) (benefit : Nat) :
    c.withoutMemo.creditResident key benefit =
      ((c.recordBenefit key benefit).1.withoutMemo, (c.recordBenefit key benefit).2) := by
  have hticked := hs.nextTick
  unfold creditResident CodeCache.recordBenefit
  dsimp only
  rw [show c.withoutMemo.nextTick.artifacts = c.nextTick.artifacts from rfl,
    show c.withoutMemo.nextTick = c.nextTick.withoutMemo from rfl]
  generalize c.nextTick = c at hticked
  cases hmemo : c.lastBenefitTarget.filter fun a => (c.cells a).artifact.key = key with
  | some a =>
    -- the memo's artifact is the one resident under its key
    obtain ⟨htarget, hkey⟩ := Option.filter_eq_some_iff.mp hmemo
    obtain ⟨key', hres⟩ := hticked.benefit_resident htarget
    have hkey' : key' = key := (hticked.key_eq hres).symm.trans (by simpa using hkey)
    rw [← hkey', hres]
    dsimp only
    rw [withoutMemo_credit]
  | none =>
    cases ha : c.artifacts.get? key with
    | none => rfl
    | some a =>
      have hne : c.lastBenefitTarget ≠ some a := fun h => by
        rw [h, Option.filter_some, if_pos (by simpa using hticked.key_eq ha)] at hmemo
        cases hmemo
      dsimp only
      rw [withoutMemo_credit, hticked.withoutMemo_retarget hne]

end Sound

end CodeCache

end QuickJit
