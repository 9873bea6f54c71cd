import QuickJit.Runtime.SystemRuns

/-
  Eviction planning, and insertions that fail.

  A planner may remove an artifact that is not pinned once everything that
  deoptimizes to it is gone (`Removable`); `Removes` are the orders in which
  artifacts can go that way. `evict::plan` builds such an order, always taking
  the least removable artifact, from a copy of the reference counts: at every
  turn the copy counts the referrers that are still there (`Choosing`).

  When the planner is stuck, nothing that is left can go in any order, so what it
  has selected is all that can be removed (`Choosing.all_removed`), and giving up
  is right. An insertion that fails has changed nothing but the reclamation flag:
  after the removals nothing can fail any more.
-/

namespace QuickJit

open OrdMap Outcome

namespace CodeCache

variable {g : CachedArtifact → Nat} {bytes code metadata : Nat} {e : Stop CacheError}

variable {c : CodeCache} {pins : List Address} {held : Option Address}
  {key excluded : ArtifactKey} {a d : Address} {gone : List ArtifactKey} {p p' : EvictionPlan}

/-! ## What can be removed -/

/-- Artifact `key` can be removed when `gone` and the replaced artifact under
`excluded` are no longer there; `held` is the target of the deopt pin the
insertion itself holds. -/
structure Removable (c : CodeCache) (held : Option Address) (excluded : ArtifactKey)
    (gone : List ArtifactKey) (key : ArtifactKey) (a : Address) : Prop where
  resident : c.artifacts.get? key = some a
  other : key ≠ excluded
  present : key ∉ gone
  unpinned : (c.cells a).executionPins = 0
  unreferenced : ∀ key' a', c.artifacts.get? key' = some a' → (c.cells a').deoptTarget = some a →
    key' = excluded ∨ key' ∈ gone
  free : held ≠ some a

/-- The orders in which artifacts can be removed. -/
inductive Removes (c : CodeCache) (held : Option Address) (excluded : ArtifactKey) :
    List ArtifactKey → Prop
  | nil : Removes c held excluded []
  | snoc {gone : List ArtifactKey} {key : ArtifactKey} {a : Address} : Removes c held excluded gone → c.Removable held excluded gone key a →
      Removes c held excluded (gone ++ [key])

open Classical in
/-- Everything that can be removed. -/
noncomputable def removable (c : CodeCache) (held : Option Address) (excluded : ArtifactKey) :
    Finset ArtifactKey :=
  c.artifacts.keys.toFinset.filter fun key => ∃ gone, c.Removes held excluded gone ∧ key ∈ gone

/-- The bytes some artifacts are charged. -/
def chargeOf (c : CodeCache) (g : CachedArtifact → Nat) (keys : Finset ArtifactKey) : Nat :=
  ∑ key ∈ keys, c.chargeAt g key

/-- A selection as it should be: a legal order that always takes the least
artifact, and frees enough. -/
structure Selects (c : CodeCache) (held : Option Address) (excluded : ArtifactKey)
    (bytes code metadata : Nat) (selection : List ArtifactKey) : Prop where
  nodup : selection.Nodup
  not_excluded : excluded ∉ selection
  unpinned : ∀ key ∈ selection, ∃ a, c.artifacts.get? key = some a ∧
    (c.cells a).executionPins = 0
  after_referrers : ∀ {pre key post a}, selection = pre ++ key :: post →
    c.artifacts.get? key = some a → ∀ key' a', c.artifacts.get? key' = some a' →
      (c.cells a').deoptTarget = some a → key' = excluded ∨ key' ∈ pre
  least : ∀ {pre key post}, selection = pre ++ key :: post →
    ∃ a, c.Removable held excluded pre key a ∧ ∀ key' a', c.Removable held excluded pre key' a' →
      (c.cells a).evictionPlanOrder ≤ (c.cells a').evictionPlanOrder
  frees : bytes ≤ c.chargeOf (·.chargeBytes) selection.toFinset
  freesCode : code ≤ c.chargeOf (·.codeBytes) selection.toFinset
  freesMetadata : metadata ≤ c.chargeOf (·.metadataBytes) selection.toFinset

/-! ## Referrers -/

/-- How many deopt pins on `a` are left when `gone` are gone. -/
def waiting (c : CodeCache) (held : Option Address) (gone : List ArtifactKey) (a : Address) : Nat :=
  (c.artifacts.entries.countP fun entry =>
    (c.cells entry.2).deoptTarget = some a && entry.1 ∉ gone) + if held = some a then 1 else 0

theorem waiting_congr {gone' : List ArtifactKey} (h : ∀ key, key ∈ gone ↔ key ∈ gone') (a : Address) :
    c.waiting held gone a = c.waiting held gone' a := by
  simp only [waiting, h]

/-- One more artifact goes, and its deopt pin with it. -/
theorem waiting_cons (held : Option Address) (ha : c.artifacts.get? key = some a) (hkey : key ∉ gone) (d : Address) :
    c.waiting held gone d = refersTo d (c.cells a) + c.waiting held (key :: gone) d := by
  have hperm := perm_erase ha
  have hrest : ∀ entry ∈ (c.artifacts.erase key).entries, entry.1 ≠ key := by
    rintro ⟨key', a'⟩ hentry rfl
    rw [mem_entries, get?_erase_self] at hentry
    cases hentry
  have hcount : ((c.artifacts.erase key).entries.countP fun entry =>
      (c.cells entry.2).deoptTarget = some d && entry.1 ∉ gone) =
      (c.artifacts.erase key).entries.countP fun entry =>
        (c.cells entry.2).deoptTarget = some d && entry.1 ∉ key :: gone := by
    refine List.countP_congr fun entry hentry => ?_
    simp [hrest entry hentry]
  unfold waiting
  rw [hperm.countP_eq, hperm.countP_eq, List.countP_cons, List.countP_cons, hcount, refersTo]
  simp [hkey]
  omega

theorem waiting_absent (ha : c.artifacts.get? key = none) (d : Address) :
    c.waiting held (key :: gone) d = c.waiting held gone d := by
  unfold waiting
  congr 1
  refine List.countP_congr fun entry hentry => ?_
  have hne : entry.1 ≠ key := by
    rintro rfl
    rw [mem_entries, ha] at hentry
    cases hentry
  simp [hne]

theorem waiting_eq_zero : c.waiting held gone a = 0 ↔ held ≠ some a ∧
    ∀ key' a', c.artifacts.get? key' = some a' → (c.cells a').deoptTarget = some a →
      key' ∈ gone := by
  have hcount : (c.artifacts.entries.countP fun entry =>
      (c.cells entry.2).deoptTarget = some a && entry.1 ∉ gone) = 0 ↔
      ∀ key' a', c.artifacts.get? key' = some a' → (c.cells a').deoptTarget = some a →
        key' ∈ gone := by
    rw [List.countP_eq_zero]
    constructor
    · intro h key' a' ha' ht
      have hentry := h (key', a') (mem_entries.mpr ha')
      simpa [ht] using hentry
    · rintro h ⟨key', a'⟩ hentry
      have hgone := h key' a' (mem_entries.mp hentry)
      simpa using hgone
  unfold waiting
  rw [Nat.add_eq_zero_iff, hcount, and_comm]
  simp

/-- The reference count of a resident artifact. -/
theorem Sound.references_waiting (hs : c.Sound pins held.toList) (ha : c.artifacts.get? key = some a) :
    (c.cells a).deoptReferences = c.waiting held [] a := by
  have hcount : c.total (refersTo a) = c.artifacts.entries.countP fun entry =>
      (c.cells entry.2).deoptTarget = some a && entry.1 ∉ ([] : List ArtifactKey) := by
    rw [total, List.countP_eq_length_filter, ← CacheSystem.sum_indicator]
    simp [refersTo]
  rw [hs.references ha, hcount, waiting]
  congr 1
  cases held with
  | none => simp
  | some b => by_cases hb : b = a <;> simp [hb]

/-! ## The planner's turns -/

/-- The planner's state: a legal order of least choices, the counts of the
referrers that are left, and the bytes of what is selected. -/
structure Choosing (c : CodeCache) (held : Option Address) (excluded : ArtifactKey)
    (p : EvictionPlan) : Prop where
  removes : c.Removes held excluded p.selected
  references : ∀ {key a}, c.artifacts.get? key = some a →
    p.deoptReferences key = some (c.waiting held (excluded :: p.selected) a)
  least : ∀ {pre key post}, p.selected = pre ++ key :: post →
    ∃ a, c.Removable held excluded pre key a ∧ ∀ key' a', c.Removable held excluded pre key' a' →
      (c.cells a).evictionPlanOrder ≤ (c.cells a').evictionPlanOrder
  freed : p.freedBytes = (p.selected.map (c.chargeAt (·.chargeBytes))).sum
  freedCode : p.freedCodeBytes = (p.selected.map (c.chargeAt (·.codeBytes))).sum
  freedMetadata : p.freedMetadataBytes = (p.selected.map (c.chargeAt (·.metadataBytes))).sum

theorem Removes.nodup (h : c.Removes held excluded gone) : gone.Nodup := by
  induction h with
  | nil => exact .nil
  | snoc _ hkey ih =>
    refine List.nodup_append.mpr ⟨ih, List.nodup_singleton _, fun x hx y hy => ?_⟩
    rintro rfl
    exact hkey.present (List.mem_singleton.mp hy ▸ hx)

/-- Each artifact of a legal order was removable when its turn came. -/
theorem Removes.mem (h : c.Removes held excluded gone) (hkey : key ∈ gone) :
    ∃ pre a, c.Removable held excluded pre key a := by
  induction h with
  | nil => cases hkey
  | @snoc gone key' a _ hremovable ih =>
    rcases List.mem_append.mp hkey with hkey | hkey
    · exact ih hkey
    · rw [List.mem_singleton.mp hkey]
      exact ⟨gone, a, hremovable⟩

/-- The entries the planner may select are the removable ones. -/
theorem Choosing.eligible_iff (h : c.Choosing held excluded p) {entry : ArtifactKey × Address}
    (hentry : entry ∈ c.artifacts.entries) :
    c.eligible excluded p entry = true ↔
      c.Removable held excluded p.selected entry.1 entry.2 := by
  have hres := mem_entries.mp hentry
  simp only [eligible, h.references hres, Option.getD_some, Bool.and_eq_true, decide_eq_true_eq,
    waiting_eq_zero, List.mem_cons]
  constructor
  · rintro ⟨⟨⟨hne, hnew⟩, hpins⟩, hfree, hreferrers⟩
    exact ⟨hres, hne, hnew, hpins, hreferrers, hfree⟩
  · intro hr
    exact ⟨⟨⟨hr.other, hr.present⟩, hr.unpinned⟩, hr.free, hr.unreferenced⟩

theorem initialPlan_choosing (hs : c.Sound pins held.toList) :
    c.Choosing held excluded (c.initialPlan excluded) := by
  refine ⟨.nil, fun {key a} ha => ?_, fun h => ?_, rfl, rfl, rfl⟩
  · have hcounts : ∀ {key a}, c.artifacts.get? key = some a →
        (c.artifacts.get? key).map (fun a => (c.cells a).deoptReferences) =
          some (c.waiting held [] a) := by
      intro key a ha
      rw [ha, Option.map_some, hs.references_waiting ha]
    show CodeCache.releaseDeoptReference _ _ key = some (c.waiting held [excluded] a)
    cases hexcluded : c.artifacts.get? excluded with
    | none =>
      rw [waiting_absent hexcluded]
      exact hcounts ha
    | some b =>
      exact hs.releaseDeoptReference hexcluded hcounts ha
        (waiting_cons held hexcluded List.not_mem_nil a)
  · exact absurd h (by simp [initialPlan])

theorem chargeAt_eq (ha : c.artifacts.get? key = some a) :
    c.chargeAt g key = g (c.cells a) := by
  rw [chargeAt, ha]
  rfl

theorem Choosing.step (hs : c.Sound pins held.toList) (h : c.Choosing held excluded p)
    (hstep : c.planStep excluded bytes code metadata p = .ok (some p')) :
    c.Choosing held excluded p' := by
  obtain ⟨key, a, hcandidate, rfl⟩ := planStep_eq_some hstep
  have hmem := List.mem_filter.mp (List.argmin_mem hcandidate)
  have hremovable := (h.eligible_iff hmem.1).mp hmem.2
  have ha := hremovable.resident
  have hleast : ∀ key' a', c.Removable held excluded p.selected key' a' →
      (c.cells a).evictionPlanOrder ≤ (c.cells a').evictionPlanOrder := by
    intro key' a' hr
    have hentry := mem_entries.mpr hr.resident
    have heligible := List.mem_filter.mpr ⟨hentry, (h.eligible_iff hentry).mpr hr⟩
    have hchosen : (key, a) ∈ (c.artifacts.entries.filter (c.eligible excluded p)).argmin
        fun entry => (c.cells entry.2).evictionPlanOrder := hcandidate
    have hnot := List.not_lt_of_mem_argmin heligible hchosen
    exact not_lt.mp hnot
  have hnew : key ∉ excluded :: p.selected := by
    rw [List.mem_cons, not_or]
    exact ⟨hremovable.other, hremovable.present⟩
  refine ⟨.snoc h.removes hremovable, fun {key' d} hd => ?_, fun {pre key' post} hsplit => ?_, ?_, ?_,
    ?_⟩
  · dsimp only
    rw [hs.releaseDeoptReference ha h.references hd (waiting_cons held ha hnew d)]
    refine congrArg some (waiting_congr (fun k => ?_) d)
    simp only [List.mem_cons, List.mem_append, List.not_mem_nil, or_false]
    tauto
  · -- Either the split is at the new artifact or inside what was selected before.
    dsimp only at hsplit
    rcases List.eq_nil_or_concat post with rfl | ⟨post, last, rfl⟩
    · obtain ⟨rfl, hkey⟩ := List.append_inj' hsplit rfl
      cases hkey
      exact ⟨a, hremovable, hleast⟩
    · rw [List.concat_eq_append, ← List.cons_append, ← List.append_assoc] at hsplit
      exact h.least (List.append_inj' hsplit rfl).1
  · simp [h.freed, chargeAt_eq ha]
  · simp [h.freedCode, chargeAt_eq ha]
  · simp [h.freedMetadata, chargeAt_eq ha]

/-! ## The end of the loop -/

theorem chargeOf_toFinset {keys : List ArtifactKey} (h : keys.Nodup) :
    c.chargeOf g keys.toFinset = (keys.map (c.chargeAt g)).sum :=
  List.sum_toFinset (c.chargeAt g) h

theorem mem_removable : key ∈ c.removable held excluded ↔
    key ∈ c.artifacts.keys ∧ ∃ gone, c.Removes held excluded gone ∧ key ∈ gone := by
  classical
  rw [removable, Finset.mem_filter, List.mem_toFinset]

theorem Removes.subset_removable (h : c.Removes held excluded gone) :
    gone.toFinset ⊆ c.removable held excluded := by
  intro key hkey
  rw [List.mem_toFinset] at hkey
  obtain ⟨pre, a, hr⟩ := h.mem hkey
  rw [mem_removable, mem_keys]
  exact ⟨⟨a, hr.resident⟩, gone, h, hkey⟩

/-- When nothing is left to select, everything removable is selected. -/
theorem Choosing.all_removed (h : c.Choosing held excluded p)
    (hstuck : c.candidate excluded p = none) : c.removable held excluded = p.selected.toFinset := by
  have hnone : ∀ key a, ¬ c.Removable held excluded p.selected key a := by
    intro key a hr
    have hentry := mem_entries.mpr hr.resident
    have hfilter := List.argmin_eq_none.mp hstuck
    rw [List.filter_eq_nil_iff] at hfilter
    exact hfilter _ hentry ((h.eligible_iff hentry).mpr hr)
  -- By induction on a legal order: what comes next in it would be removable now.
  have hall : ∀ {gone}, c.Removes held excluded gone → ∀ key ∈ gone, key ∈ p.selected := by
    intro gone hgone
    induction hgone with
    | nil => exact fun _ hkey => (List.not_mem_nil hkey).elim
    | @snoc gone key a _ hr ih =>
      intro key' hkey'
      rcases List.mem_append.mp hkey' with hkey' | hkey'
      · exact ih key' hkey'
      · rw [List.mem_singleton.mp hkey']
        by_contra hnew
        refine hnone key a ⟨hr.resident, hr.other, hnew, hr.unpinned, fun k b hb ht => ?_, hr.free⟩
        exact (hr.unreferenced k b hb ht).imp_right (ih k)
  refine Finset.Subset.antisymm (fun key hkey => ?_) h.removes.subset_removable
  obtain ⟨-, gone, hgone, hmem⟩ := mem_removable.mp hkey
  exact List.mem_toFinset.mpr (hall hgone key hmem)

theorem chargeOf_le_total {keys : Finset ArtifactKey} (h : keys ⊆ c.artifacts.keys.toFinset) :
    c.chargeOf g keys ≤ c.total g := by
  have hnodup : c.artifacts.keys.Nodup := c.artifacts.keys_sorted.imp fun h => ne_of_lt h
  calc c.chargeOf g keys ≤ c.chargeOf g c.artifacts.keys.toFinset := Finset.sum_le_sum_of_subset h
    _ = (c.artifacts.keys.map (c.chargeAt g)).sum := chargeOf_toFinset hnodup
    _ = c.total g := by
      rw [OrdMap.keys, List.map_map, total]
      refine congrArg List.sum (List.map_congr_left fun entry hentry => ?_)
      exact chargeAt_eq (mem_entries.mp hentry)

theorem removable_subset (c : CodeCache) (held : Option Address) (excluded : ArtifactKey) :
    c.removable held excluded ⊆ c.artifacts.keys.toFinset :=
  fun _ hkey => List.mem_toFinset.mpr (mem_removable.mp hkey).1

/-- The books are small enough to be added up. -/
structure Countable (c : CodeCache) : Prop where
  bytes : c.total (·.chargeBytes) ≤ usizeMax
  code : c.total (·.codeBytes) ≤ usizeMax
  metadata : c.total (·.metadataBytes) ≤ usizeMax

/-- A deopt pin is not charged. -/
theorem Countable.hold (h : c.Countable) (target : Option Address) : (c.hold target).Countable := by
  have htotal : ∀ g : CachedArtifact → Nat,
      (∀ x, g { x with deoptReferences := 0, strong := 0 } = g x) →
      (c.hold target).total g = c.total g := by
    intro g hg
    refine total_congr (ledger_artifacts (hold_ledger c target)) fun key a _ => ?_
    rw [← hg, ← hg (c.cells a)]
    exact congrArg g (hold_content c target a)
  exact ⟨(htotal _ fun _ => rfl).trans_le h.bytes, (htotal _ fun _ => rfl).trans_le h.code,
    (htotal _ fun _ => rfl).trans_le h.metadata⟩

/-- Why a turn of the planner fails. -/
theorem Choosing.step_error (hcount : c.Countable) (h : c.Choosing held excluded p)
    (hstep : c.planStep excluded bytes code metadata p = .error e) :
    e = .error .allArtifactsPinned ∧ c.candidate excluded p = none ∧
      (p.freedBytes < bytes ∨ p.freedCodeBytes < code ∨ p.freedMetadataBytes < metadata) := by
  unfold planStep at hstep
  split at hstep
  · cases hstep
  case isFalse hneeded =>
  have hneeded' : p.freedBytes < bytes ∨ p.freedCodeBytes < code ∨
      p.freedMetadataBytes < metadata := by
    by_contra hnot
    simp only [not_or, not_lt] at hnot
    exact hneeded hnot
  split at hstep
  case h_1 hnone =>
    cases hstep
    exact ⟨rfl, hnone, hneeded'⟩
  case h_2 key a hcandidate =>
    exfalso
    have hmem := List.mem_filter.mp (List.argmin_mem hcandidate)
    have hremovable := (h.eligible_iff hmem.1).mp hmem.2
    have hremoves := Removes.snoc h.removes hremovable
    -- What is selected and the new candidate together are charged no more than everything.
    have hfits : ∀ {g : CachedArtifact → Nat} {freed : Nat},
        freed = (p.selected.map (c.chargeAt g)).sum → c.total g ≤ usizeMax →
          checkedAdd freed (g (c.cells a)) = some (freed + g (c.cells a)) := by
      intro g freed hfreed hle
      have htotal := chargeOf_le_total (g := g)
        (hremoves.subset_removable.trans (c.removable_subset held excluded))
      rw [chargeOf_toFinset hremoves.nodup, List.map_append, List.sum_append, ← hfreed,
        List.map_singleton, List.sum_singleton, chargeAt_eq hremovable.resident] at htotal
      dsimp only at htotal
      exact checkedAdd_eq_some.mpr ⟨by omega, rfl⟩
    simp only [hfits h.freed hcount.bytes, hfits h.freedCode hcount.code,
      hfits h.freedMetadata hcount.metadata, okOr] at hstep
    cases hstep

/-- What the planner returns is a selection as it should be. -/
theorem plan_selects {selection : List ArtifactKey} (hs : c.Sound pins held.toList)
    (h : c.plan excluded bytes code metadata = .ok selection) :
    c.Removes held excluded selection ∧ c.Selects held excluded bytes code metadata selection := by
  simp only [plan, bind_eq_ok] at h
  obtain ⟨p, hiterate, hselected⟩ := h
  cases hselected
  obtain ⟨hp, hstop⟩ := iterate_inv (P := c.Choosing held excluded)
    (fun _ _ hp => hp.step hs) hiterate (initialPlan_choosing hs)
  have henough : bytes ≤ p.freedBytes ∧ code ≤ p.freedCodeBytes ∧
      metadata ≤ p.freedMetadataBytes := by
    unfold planStep at hstop
    split at hstop
    case isTrue henough => exact henough
    case isFalse =>
      split at hstop
      · cases hstop
      · simp [bind_eq_ok] at hstop
  have hnodup := hp.removes.nodup
  rw [hp.freed, hp.freedCode, hp.freedMetadata, ← chargeOf_toFinset hnodup,
    ← chargeOf_toFinset hnodup, ← chargeOf_toFinset hnodup] at henough
  refine ⟨hp.removes, hnodup, fun hmem => ?_, fun key hmem => ?_, fun {pre key post a} hsplit ha => ?_,
    hp.least, henough.1, henough.2.1, henough.2.2⟩
  · obtain ⟨pre, a, hr⟩ := hp.removes.mem hmem
    exact hr.other rfl
  · obtain ⟨pre, a, hr⟩ := hp.removes.mem hmem
    exact ⟨a, hr.resident, hr.unpinned⟩
  · obtain ⟨a', hr, -⟩ := hp.least hsplit
    cases ha.symm.trans hr.resident
    exact hr.unreferenced

/-- A plan that fails is stuck with everything removable selected. -/
theorem plan_error (hs : c.Sound pins held.toList) (hcount : c.Countable)
    (h : c.plan excluded bytes code metadata = .error e) :
    e = .error .allArtifactsPinned ∧
      (c.chargeOf (·.chargeBytes) (c.removable held excluded) < bytes ∨
      c.chargeOf (·.codeBytes) (c.removable held excluded) < code ∨
      c.chargeOf (·.metadataBytes) (c.removable held excluded) < metadata) := by
  have hiterate : Outcome.iterate (c.planStep excluded bytes code metadata)
      (c.artifacts.entries.length + 1) (c.initialPlan excluded) = .error e := by
    unfold plan at h
    cases hit : Outcome.iterate (c.planStep excluded bytes code metadata)
        (c.artifacts.entries.length + 1) (c.initialPlan excluded) with
    | error e' =>
      rw [hit] at h
      exact congrArg Except.error (Except.error.inj h)
    | ok p =>
      rw [hit] at h
      cases h
  rcases iterate_error (P := c.Choosing held excluded) (fun _ _ hp => hp.step hs) hiterate
    (initialPlan_choosing hs) with rfl | ⟨p, hp, hstep⟩
  · exact absurd h (plan_ne_outOfFuel c excluded bytes code metadata)
  · obtain ⟨hpinned, hstuck, hneeded⟩ := hp.step_error hcount hstep
    have hnodup := hp.removes.nodup
    rw [hp.freed, hp.freedCode, hp.freedMetadata, ← chargeOf_toFinset hnodup,
      ← chargeOf_toFinset hnodup, ← chargeOf_toFinset hnodup, ← hp.all_removed hstuck] at hneeded
    exact ⟨hpinned, hneeded⟩

/-- The planner gives up exactly when everything removable is not enough. -/
theorem plan_pinned_iff (hs : c.Sound pins held.toList) (hcount : c.Countable) :
    c.plan excluded bytes code metadata = fail .allArtifactsPinned ↔
      c.chargeOf (·.chargeBytes) (c.removable held excluded) < bytes ∨
      c.chargeOf (·.codeBytes) (c.removable held excluded) < code ∨
      c.chargeOf (·.metadataBytes) (c.removable held excluded) < metadata := by
  constructor
  · exact fun h => (plan_error hs hcount h).2
  · intro hlittle
    cases hplan : c.plan excluded bytes code metadata with
    | error e =>
      rw [(plan_error hs hcount hplan).1]
      rfl
    | ok selection =>
      -- A selection frees no more than everything removable.
      obtain ⟨hremoves, hselects⟩ := plan_selects hs hplan
      have hle : ∀ g, c.chargeOf g selection.toFinset ≤ c.chargeOf g (c.removable held excluded) :=
        fun g => Finset.sum_le_sum_of_subset hremoves.subset_removable
      have h₁ := hselects.frees.trans (hle _)
      have h₂ := hselects.freesCode.trans (hle _)
      have h₃ := hselects.freesMetadata.trans (hle _)
      omega

/-! ## Failed insertions -/

theorem signal_eq (c : CodeCache) (previous : Nat) (a : Address) :
    c.signal previous a = { c with reclaimNeeded := (c.signal previous a).reclaimNeeded } := by
  unfold signal
  split <;> rfl

/-- Taking a deopt pin and dropping it again changes nothing but the flag. -/
theorem unhold_hold (c : CodeCache) (target : Option Address) :
    (c.hold target).unhold target =
      { c with reclaimNeeded := ((c.hold target).unhold target).reclaimNeeded } := by
  cases target with
  | none => rfl
  | some a =>
    have hcells : ((c.takeDeoptPin a).dropDeoptPin a).cells = c.cells := by
      rw [dropDeoptPin_cells]
      simp [takeDeoptPin]
    have hrest : (c.takeDeoptPin a).dropDeoptPin a = { c with
        cells := ((c.takeDeoptPin a).dropDeoptPin a).cells
        reclaimNeeded := ((c.takeDeoptPin a).dropDeoptPin a).reclaimNeeded } := by
      unfold dropDeoptPin
      dsimp only
      rw [signal_eq]
      rfl
    rw [hcells] at hrest
    exact hrest

/-- After the removals of an insertion nothing fails. -/
theorem commit_ok {artifact : CompiledArtifact} (target : Option Address) {charge : Nat}
    {selected : List ArtifactKey} (hs : c.Sound pins held.toList)
    (h : c.reserve artifact.key charge artifact.codeBytes metadata = .ok selected) :
    (c.commit artifact target charge metadata selected).2 = .ok selected := by
  obtain ⟨-, -, hfits⟩ := reserve_fits hs h
  have hticked : c.Fits (c.makeRoom artifact.key selected).nextTick charge artifact.codeBytes
      metadata :=
    ⟨hfits.bytes, hfits.codeBytes, hfits.metadataBytes, hfits.codeLimit, hfits.metadataLimit⟩
  unfold commit
  rw [charge_eq hticked]

theorem insert_error [TypeSizes] (hs : c.Sound pins []) {artifact : CompiledArtifact}
    {c' : CodeCache} (h : c.insert artifact = (c', .error e)) :
    c' = { c with reclaimNeeded := c'.reclaimNeeded } := by
  unfold insert at h
  split at h
  · cases h
    rfl
  split at h
  · cases h
    rfl
  case h_2 charge metadata _ _ target htarget =>
  have ht := deoptBaseline_eq_ok htarget
  have hs₁ : (c.hold target).Sound pins target.toList := by
    have hheld := hs.hold fun _ h => ht.resident h
    rw [List.append_nil] at hheld
    exact hheld
  dsimp only at h
  split at h
  · cases h
    exact unhold_hold c target
  case h_2 selected hreserve =>
    have hok := commit_ok target hs₁ hreserve
    rw [h] at hok
    cases hok

theorem total_le {f : CachedArtifact → Nat}
    (h : ∀ key a, c.artifacts.get? key = some a → f (c.cells a) ≤ g (c.cells a)) :
    c.total f ≤ c.total g := by
  unfold total
  exact List.sum_le_sum fun entry hentry => h entry.1 entry.2 (mem_entries.mp hentry)

end CodeCache

/-! ## Reachable caches -/

/-- Code and metadata are parts of the charge. -/
theorem CachedArtifact.Priced.le [TypeSizes] {x : CachedArtifact} (h : x.Priced) :
    x.codeBytes ≤ x.chargeBytes ∧ x.metadataBytes ≤ x.chargeBytes := by
  have hmetadata := h.metadataBytes
  rw [CompiledArtifact.metadataBytes, h.chargeBytes, Option.bind_some, checkedSub_eq_some] at hmetadata
  rw [h.codeBytes]
  omega

namespace CacheSystem

open CodeCache

theorem Ok.countable [TypeSizes] {limits : CacheLimits} {s : CacheSystem} (h : s.Ok limits) :
    s.cache.Countable := by
  have hbytes : s.cache.total (·.chargeBytes) ≤ usizeMax := h.sound.charged ▸ h.bounded
  exact ⟨hbytes, (total_le fun _ _ ha => (h.priced ha).le.1).trans hbytes,
    (total_le fun _ _ ha => (h.priced ha).le.2).trans hbytes⟩

end CacheSystem

/-- In every reachable cache, also while the insertion holds a deopt pin on
`target`: what the planner selects is a legal order of least choices that frees
enough; it fails only because everything is pinned, and exactly when everything
that can be removed is not enough. -/
theorem eviction_plan_correct [TypeSizes] (limits : CacheLimits) (ops : List CacheOp)
    (key : ArtifactKey) (target : Option Address) (bytes code metadata : Nat)
    (htarget : ∀ a, target = some a → ∃ key',
      (runs CacheSystem.step ⟨limits.cache, []⟩ ops).cache.artifacts.get? key' = some a) :
    let c := (runs CacheSystem.step ⟨limits.cache, []⟩ ops).cache.hold target
    (∀ selection, c.plan key bytes code metadata = .ok selection →
      c.Selects target key bytes code metadata selection) ∧
    (∀ e, c.plan key bytes code metadata = .error e → e = .error .allArtifactsPinned) ∧
    (c.plan key bytes code metadata = Outcome.fail .allArtifactsPinned ↔
      c.chargeOf (·.chargeBytes) (c.removable target key) < bytes ∨
      c.chargeOf (·.codeBytes) (c.removable target key) < code ∨
      c.chargeOf (·.metadataBytes) (c.removable target key) < metadata) := by
  intro c
  have hok := runs_inv (P := CacheSystem.Ok limits) CacheSystem.step_ok
    (CacheSystem.initial_ok limits) ops
  have hs : c.Sound (runs CacheSystem.step ⟨limits.cache, []⟩ ops).pins target.toList := by
    have hheld := hok.sound.hold htarget
    rw [List.append_nil] at hheld
    exact hheld
  have hcount : c.Countable := hok.countable.hold target
  exact ⟨fun selection h => (CodeCache.plan_selects hs h).2,
    fun e h => (CodeCache.plan_error hs hcount h).1, CodeCache.plan_pinned_iff hs hcount⟩

open scoped Sample

/-- Both tiers of function 1. -/
def bothTiers : List CacheOp :=
  [.insert (sampleArtifact (sampleKey ⟨1, 1⟩ .baseline 0) 10 []),
    .insert (sampleArtifact (sampleKey ⟨1, 1⟩ .optimizing 0) 10 [])]

/-- To free more than one artifact, the optimizing one goes first and then the
older baseline. -/
theorem eviction_plan_correct_bothTiers :
    let c := (runs CacheSystem.step ⟨(CacheLimits.shared 100).cache, []⟩ bothTiers).cache.hold none
    c.plan (sampleKey ⟨2, 1⟩ .baseline 0) 15 0 0 =
        .ok [sampleKey ⟨1, 1⟩ .optimizing 0, sampleKey ⟨1, 1⟩ .baseline 0] ∧
      c.Selects none (sampleKey ⟨2, 1⟩ .baseline 0) 15 0 0
        [sampleKey ⟨1, 1⟩ .optimizing 0, sampleKey ⟨1, 1⟩ .baseline 0] := by
  intro c
  have hplan : c.plan (sampleKey ⟨2, 1⟩ .baseline 0) 15 0 0 =
      .ok [sampleKey ⟨1, 1⟩ .optimizing 0, sampleKey ⟨1, 1⟩ .baseline 0] := by decide +kernel
  exact ⟨hplan, (eviction_plan_correct (.shared 100) bothTiers (sampleKey ⟨2, 1⟩ .baseline 0) none
    15 0 0 nofun).1 _ hplan⟩

/-- An insertion that fails in a reachable cache leaves everything but the
reclamation flag as it was, and what follows the removals does not fail. -/
theorem insert_all_or_nothing [TypeSizes] (limits : CacheLimits) (ops : List CacheOp)
    (artifact : CompiledArtifact) :
    let c := (runs CacheSystem.step ⟨limits.cache, []⟩ ops).cache
    (∀ c' e, c.insert artifact = (c', .error e) → c' = { c with reclaimNeeded := c'.reclaimNeeded }) ∧
    ∀ target charge metadata selected, c.deoptBaseline artifact.key = .ok target →
      (c.hold target).reserve artifact.key charge artifact.codeBytes metadata = .ok selected →
        ((c.hold target).commit artifact target charge metadata selected).2 = .ok selected := by
  intro c
  have hs := (runs_inv (P := CacheSystem.Ok limits) CacheSystem.step_ok
    (CacheSystem.initial_ok limits) ops).sound
  refine ⟨fun c' e h => CodeCache.insert_error hs h, fun target charge metadata selected ht h => ?_⟩
  have hheld := hs.hold fun _ ha => (CodeCache.deoptBaseline_eq_ok ht).resident ha
  rw [List.append_nil] at hheld
  exact CodeCache.commit_ok target hheld h

/-- An optimizing artifact that does not fit beside its pinned baseline: the
insertion holds a deopt pin when it fails. -/
theorem insert_all_or_nothing_pinned :
    let c := (runs CacheSystem.step ⟨(CacheLimits.shared 15).cache, []⟩
      [.insert (sampleArtifact (sampleKey ⟨1, 1⟩ .baseline 0) 10 []),
        .pin (sampleKey ⟨1, 1⟩ .baseline 0)]).cache
    let artifact := sampleArtifact (sampleKey ⟨1, 1⟩ .optimizing 0) 10 []
    (c.insert artifact).2 = Outcome.fail .allArtifactsPinned ∧
      (c.insert artifact).1 = { c with reclaimNeeded := (c.insert artifact).1.reclaimNeeded } := by
  intro c artifact
  have herror : (c.insert artifact).2 = Outcome.fail .allArtifactsPinned := by decide +kernel
  exact ⟨herror, (insert_all_or_nothing (.shared 15) _ artifact).1 _ _ (Prod.ext rfl herror)⟩

end QuickJit
