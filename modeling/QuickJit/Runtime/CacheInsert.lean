import QuickJit.Runtime.CacheSound

/-
  Evictions and insertions of the code cache.

  `evict::plan` works on copies of the reference counts and removes nothing.
  `Planned` relates those copies to the cache as it will be once the selected
  artifacts are gone (`makeRoom`), so that every artifact selected next is one
  that can be removed then (`Planned.step`). `insert_spec` is all the rest of
  the development uses: an insertion either refuses and leaves the map as it
  was, or the new artifact is resident, what was evicted is not, and everything
  else is unchanged.
-/

namespace QuickJit

open Function OrdMap Outcome

namespace CodeCache

variable {d : Address} {excluded : ArtifactKey} {artifact : CompiledArtifact} {p : EvictionPlan}
  {selected : List ArtifactKey} {bytes charge code metadata : Nat} {target : Option Address}

variable {c c' : CodeCache} {pins pins' held held' : List Address}
  {key : ArtifactKey} {a b : Address}

/-! ## Eviction -/

/-- The charges of the artifact under a key, nothing when there is none. -/
def chargeAt (c : CodeCache) (g : CachedArtifact → Nat) (key : ArtifactKey) : Nat :=
  ((c.artifacts.get? key).map fun a => g (c.cells a)).getD 0

/-- What is replaced can be removed. -/
def Replaceable (c : CodeCache) (key : ArtifactKey) : Prop :=
  ∀ a, c.artifacts.get? key = some a →
    (c.cells a).executionPins = 0 ∧ (c.cells a).deoptReferences = 0

/-- The cache once `excluded` and the selected artifacts are gone. -/
structure Cleared (c : CodeCache) (pins held : List Address) (excluded : ArtifactKey)
    (selected : List ArtifactKey) (room : CodeCache) : Prop where
  sound : room.Sound pins held
  get?_eq : ∀ key, room.artifacts.get? key =
    if key = excluded ∨ key ∈ selected then none else c.artifacts.get? key
  content_eq : ∀ d, room.content d = c.content d
  frame_eq : room.frame = c.frame
  unpinned : ∀ key ∈ selected, key ≠ excluded ∧ ∃ a, c.artifacts.get? key = some a ∧
    (c.cells a).executionPins = 0

/-- A plan agrees with the cache as it is once the selected artifacts are gone. -/
structure Planned (c : CodeCache) (pins held : List Address) (excluded : ArtifactKey)
    (p : EvictionPlan) : Prop where
  cleared : c.Cleared pins held excluded p.selected (c.makeRoom excluded p.selected)
  references : ∀ {key a}, (c.makeRoom excluded p.selected).artifacts.get? key = some a →
    p.deoptReferences key = some ((c.makeRoom excluded p.selected).cells a).deoptReferences
  freed : c.chargedBytes = c.chargeAt (·.chargeBytes) excluded + p.freedBytes +
    (c.makeRoom excluded p.selected).chargedBytes
  freedCode : c.chargedCodeBytes = c.chargeAt (·.codeBytes) excluded + p.freedCodeBytes +
    (c.makeRoom excluded p.selected).chargedCodeBytes
  freedMetadata : c.chargedMetadataBytes = c.chargeAt (·.metadataBytes) excluded +
    p.freedMetadataBytes + (c.makeRoom excluded p.selected).chargedMetadataBytes

section

variable (h : c'.content a = c.content a)

include h

theorem content_executionPins :
    (c'.cells a).executionPins = (c.cells a).executionPins := by
  have h' := congrArg CachedArtifact.executionPins h
  exact h'

theorem content_deoptTarget :
    (c'.cells a).deoptTarget = (c.cells a).deoptTarget := by
  have h' := congrArg CachedArtifact.deoptTarget h
  exact h'

theorem content_artifact :
    (c'.cells a).artifact = (c.cells a).artifact := by
  have h' := congrArg CachedArtifact.artifact h
  exact h'

theorem content_invalidated :
    (c'.cells a).invalidated = (c.cells a).invalidated := by
  have h' := congrArg CachedArtifact.invalidated h
  exact h'

theorem content_charges :
    (c'.cells a).chargeBytes = (c.cells a).chargeBytes ∧
      (c'.cells a).codeBytes = (c.cells a).codeBytes ∧
      (c'.cells a).metadataBytes = (c.cells a).metadataBytes := by
  have h' := congrArg (fun x : CachedArtifact => (x.chargeBytes, x.codeBytes, x.metadataBytes)) h
  simpa [content] using h'

end

/-- The plan's copy of the counts follows an artifact that goes. -/
theorem Sound.releaseDeoptReference (hs : c.Sound pins held) (ha : c.artifacts.get? key = some a)
    {references : ArtifactKey → Option Nat} {n : Address → Nat} (href : ∀ {key a},
      c.artifacts.get? key = some a → references key = some (n a)) {key' : ArtifactKey}
    (hd : c.artifacts.get? key' = some d) {m : Nat} (hm : n d = refersTo d (c.cells a) + m) :
    CodeCache.releaseDeoptReference references (c.deoptTargetKey a) key' = some m := by
  cases ht : (c.cells a).deoptTarget with
  | none =>
    simp only [refersTo, ht] at hm
    simp only [deoptTargetKey, ht, Option.map_none, CodeCache.releaseDeoptReference]
    rw [href hd, hm]
    simp
  | some t =>
    have htier : key.tier = .optimizing := by
      cases htier : key.tier with
      | optimizing => rfl
      | baseline => cases (hs.no_target ha htier).symm.trans ht
    obtain ⟨b, hb, hres⟩ := hs.target ha htier
    obtain rfl : b = t := Option.some.inj (hb.symm.trans ht)
    simp only [deoptTargetKey, ht, Option.map_some, CodeCache.releaseDeoptReference,
      hs.key_eq hres, href hres]
    by_cases hkey : key' = key.withTier .baseline
    · obtain rfl : b = d := Option.some.inj (hres.symm.trans (hkey ▸ hd))
      rw [hkey, update_self, hm]
      simp [refersTo, ht]
    · have hne : b ≠ d := fun h => hkey (hs.key_unique hd (h ▸ hres))
      rw [update_of_ne hkey, href hd, hm]
      simp [refersTo, ht, hne]

theorem initialPlan_planned (hs : c.Sound pins held) (hrep : c.Replaceable key) :
    c.Planned pins held key (c.initialPlan key) := by
  have href : ∀ {key' a}, c.artifacts.get? key' = some a →
      (c.artifacts.get? key').map (fun a => (c.cells a).deoptReferences) =
        some (c.cells a).deoptReferences := fun ha => by rw [ha]; rfl
  cases ha : c.artifacts.get? key with
  | none =>
    have hroom : c.makeRoom key (c.initialPlan key).selected = c := by
      simp [makeRoom, initialPlan, OrdMap.contains, ha]
    refine ⟨⟨?_, ?_, ?_, ?_, nofun⟩, ?_, ?_, ?_, ?_⟩ <;> rw [hroom]
    · exact hs
    · intro key'
      by_cases hkey : key' = key <;> simp [initialPlan, hkey, ha]
    · exact fun _ => rfl
    · intro key' a ha'
      simp only [initialPlan, ha, Option.bind_none, releaseDeoptReference]
      exact href ha'
    · simp [chargeAt, ha, initialPlan]
    · simp [chargeAt, ha, initialPlan]
    · simp [chargeAt, ha, initialPlan]
  | some a =>
    obtain ⟨hp, hr⟩ := hrep a ha
    have hroom : c.makeRoom key (c.initialPlan key).selected = c.remove key := by
      simp [makeRoom, initialPlan, OrdMap.contains, ha]
    obtain ⟨hcharge, hcode, hmetadata⟩ := hs.remove_charges ha hp hr
    refine ⟨⟨?_, ?_, ?_, ?_, nofun⟩, ?_, ?_, ?_, ?_⟩ <;> rw [hroom]
    · exact hs.remove ha hp hr
    · intro key'
      rw [remove_artifacts ha, get?_erase]
      by_cases hkey : key' = key
      · simp [hkey]
      · simp [initialPlan, hkey, Ne.symm hkey]
    · exact remove_content c key
    · exact remove_frame c key
    · intro key' d hd
      simp only [initialPlan, ha, Option.bind_some]
      exact hs.releaseDeoptReference ha href (Sound.remove_get? hs ha hd).1
        (hs.remove_references ha hp hr hd)
    · simpa [chargeAt, ha, initialPlan] using hcharge
    · simpa [chargeAt, ha, initialPlan] using hcode
    · simpa [chargeAt, ha, initialPlan] using hmetadata

theorem candidate_eq_some {entry : ArtifactKey × Address} (h : c.candidate excluded p = some entry) :
    c.artifacts.get? entry.1 = some entry.2 ∧ entry.1 ≠ excluded ∧ entry.1 ∉ p.selected ∧
      (c.cells entry.2).executionPins = 0 ∧ (p.deoptReferences entry.1).getD 0 = 0 := by
  have hmem := List.mem_filter.mp (List.argmin_mem h)
  have heligible := hmem.2
  simp only [eligible, Bool.and_eq_true, decide_eq_true_eq] at heligible
  exact ⟨mem_entries.mp hmem.1, heligible.1.1.1, heligible.1.1.2, heligible.1.2,
    heligible.2⟩

/-- What one turn of the planning loop selects. -/
theorem planStep_eq_some {p' : EvictionPlan}
    (h : c.planStep excluded bytes code metadata p = .ok (some p')) :
    ∃ key a, c.candidate excluded p = some (key, a) ∧ p' = {
      selected := p.selected ++ [key]
      deoptReferences := releaseDeoptReference p.deoptReferences (c.deoptTargetKey a)
      freedBytes := p.freedBytes + (c.cells a).chargeBytes
      freedCodeBytes := p.freedCodeBytes + (c.cells a).codeBytes
      freedMetadataBytes := p.freedMetadataBytes + (c.cells a).metadataBytes } := by
  unfold planStep at h
  split at h
  · cases h
  split at h
  · cases h
  case h_2 key a hcandidate =>
  simp only [bind_eq_ok, okOr_eq_ok, checkedAdd_eq_some] at h
  obtain ⟨_, ⟨-, rfl⟩, _, ⟨-, rfl⟩, _, ⟨-, rfl⟩, h⟩ := h
  cases h
  exact ⟨key, a, hcandidate, rfl⟩

theorem makeRoom_append (c : CodeCache) (excluded key : ArtifactKey) (selected : List ArtifactKey) :
    c.makeRoom excluded (selected ++ [key]) = (c.makeRoom excluded selected).remove key := by
  simp [makeRoom, List.foldl_append]

/-- The planning loop selects what can be removed next. -/
theorem Planned.step {p' : EvictionPlan} (hp : c.Planned pins held excluded p)
    (h : c.planStep excluded bytes code metadata p = .ok (some p')) :
    c.Planned pins held excluded p' := by
  obtain ⟨key, a, hcandidate, rfl⟩ := planStep_eq_some h
  obtain ⟨hres, hne, hnew, hpins, hrefs⟩ := candidate_eq_some hcandidate
  obtain ⟨hsound, hget, hcontent, hframe, hunpinned⟩ := hp.cleared
  have ha : (c.makeRoom excluded p.selected).artifacts.get? key = some a := by
    rw [hget, if_neg (not_or.mpr ⟨hne, hnew⟩)]
    exact hres
  have hpins' : ((c.makeRoom excluded p.selected).cells a).executionPins = 0 :=
    (content_executionPins (hcontent a)).trans hpins
  have hrefs' : ((c.makeRoom excluded p.selected).cells a).deoptReferences = 0 := by
    simpa [hp.references ha] using hrefs
  have htarget : c.deoptTargetKey a = (c.makeRoom excluded p.selected).deoptTargetKey a := by
    unfold deoptTargetKey
    rw [content_deoptTarget (hcontent a)]
    refine congrArg (Option.map · _) (funext fun t => ?_)
    rw [content_artifact (hcontent t)]
  obtain ⟨hcharge, hcode, hmetadata⟩ := hsound.remove_charges ha hpins' hrefs'
  obtain ⟨hcharge', hcode', hmetadata'⟩ := content_charges (hcontent a)
  have hfreed := hp.freed
  have hfreedCode := hp.freedCode
  have hfreedMetadata := hp.freedMetadata
  refine ⟨⟨?_, ?_, ?_, ?_, ?_⟩, ?_, ?_, ?_, ?_⟩ <;> dsimp only <;> try rw [makeRoom_append]
  · exact hsound.remove ha hpins' hrefs'
  · intro key'
    rw [remove_artifacts ha, get?_erase, hget]
    by_cases hkey : key = key'
    · simp [hkey]
    · simp [hkey, Ne.symm hkey]
  · exact fun d => (remove_content _ key d).trans (hcontent d)
  · exact (remove_frame _ key).trans hframe
  · intro key' hkey'
    rcases List.mem_append.mp hkey' with hkey' | hkey'
    · exact hunpinned key' hkey'
    · rw [List.mem_singleton] at hkey'
      subst hkey'
      exact ⟨hne, a, hres, hpins⟩
  · intro key' d hd
    rw [htarget]
    exact hsound.releaseDeoptReference ha hp.references (Sound.remove_get? hsound ha hd).1
      (hsound.remove_references ha hpins' hrefs' hd)
  · omega
  · omega
  · omega

/-- A plan, and the bytes it frees. -/
theorem plan_planned (hs : c.Sound pins held) (hrep : c.Replaceable excluded)
    (h : c.plan excluded bytes code metadata = .ok selected) :
    ∃ p, p.selected = selected ∧ c.Planned pins held excluded p ∧ bytes ≤ p.freedBytes ∧
      code ≤ p.freedCodeBytes ∧ metadata ≤ p.freedMetadataBytes := by
  simp only [plan, bind_eq_ok] at h
  obtain ⟨p, hiterate, hselected⟩ := h
  obtain ⟨hplanned, hstop⟩ := iterate_inv (P := c.Planned pins held excluded)
    (fun _ _ => Planned.step) hiterate (initialPlan_planned hs hrep)
  refine ⟨p, Except.ok.inj hselected, hplanned, ?_⟩
  unfold planStep at hstop
  split at hstop
  case isTrue henough => exact henough
  case isFalse =>
  split at hstop
  · cases hstop
  · simp [bind_eq_ok] at hstop

/-- The entries a plan has not selected. -/
def unselected (c : CodeCache) (p : EvictionPlan) : List (ArtifactKey × Address) :=
  c.artifacts.entries.filter fun entry => entry.1 ∉ p.selected

/-- Each turn selects another entry, so the planning loop is never cut short. -/
theorem plan_ne_outOfFuel (c : CodeCache) (excluded : ArtifactKey) (bytes code metadata : Nat) :
    c.plan excluded bytes code metadata ≠ .error .outOfFuel := by
  have hloop : Outcome.iterate (c.planStep excluded bytes code metadata)
      (c.artifacts.entries.length + 1) (c.initialPlan excluded) ≠ .error .outOfFuel := by
    refine iterate_ne_outOfFuel (m := fun p => (c.unselected p).length)
      (fun p h => ?_) (fun p p' h => ?_) (Nat.lt_succ_of_le (List.length_filter_le ..))
    · unfold planStep at h
      split at h
      · cases h
      split at h
      · cases h
      · revert h
        refine bind_ne_outOfFuel okOr_ne_outOfFuel fun _ => ?_
        refine bind_ne_outOfFuel okOr_ne_outOfFuel fun _ => ?_
        exact bind_ne_outOfFuel okOr_ne_outOfFuel fun _ => nofun
    · obtain ⟨key, a, hcandidate, rfl⟩ := planStep_eq_some h
      obtain ⟨hres, -, hnew, -⟩ := candidate_eq_some hcandidate
      have hsplit : c.unselected { p with selected := p.selected ++ [key] } =
          (c.unselected p).filter fun entry => entry.1 ≠ key := by
        simp only [unselected, List.filter_filter]
        refine List.filter_congr fun entry _ => ?_
        simp [not_or, and_comm]
      show (c.unselected { p with selected := p.selected ++ [key] }).length < _
      rw [hsplit, List.length_filter_lt_length_iff_exists]
      exact ⟨(key, a), List.mem_filter.mpr ⟨mem_entries.mpr hres, by simpa using hnew⟩,
        by simp⟩
  exact bind_ne_outOfFuel hloop fun _ => nofun

/-! ## Insertion -/

theorem replacedCharges_eq_ok {charges : Nat × Nat × Nat} (h : c.replacedCharges key = .ok charges) :
    c.Replaceable key ∧ charges = (c.chargeAt (·.chargeBytes) key, c.chargeAt (·.codeBytes) key,
      c.chargeAt (·.metadataBytes) key) := by
  unfold replacedCharges at h
  split at h
  case h_1 a ha =>
    dsimp only at h
    split at h
    case isTrue hevictable =>
      cases h
      simp only [CachedArtifact.isEvictable, Bool.and_eq_true, decide_eq_true_eq] at hevictable
      refine ⟨fun a' ha' => ?_, by simp [chargeAt, ha]⟩
      cases ha.symm.trans ha'
      exact hevictable
    case isFalse => cases h
  case h_2 ha =>
    cases h
    exact ⟨fun _ ha' => (nomatch ha.symm.trans ha'), by simp [chargeAt, ha]⟩

/-- The room an insertion has made for the new charges. -/
structure Fits (c room : CodeCache) (charge code metadata : Nat) : Prop where
  bytes : room.chargedBytes + charge ≤ min c.maxBytes usizeMax
  codeBytes : room.chargedCodeBytes + code ≤ usizeMax
  metadataBytes : room.chargedMetadataBytes + metadata ≤ usizeMax
  codeLimit : c.separateLimits = true → room.chargedCodeBytes + code ≤ c.maxCodeBytes
  metadataLimit : c.separateLimits = true →
    room.chargedMetadataBytes + metadata ≤ c.maxMetadataBytes

theorem reserve_fits (hs : c.Sound pins held)
    (h : c.reserve key charge code metadata = .ok selected) :
    c.Replaceable key ∧ c.Cleared pins held key selected (c.makeRoom key selected) ∧
      c.Fits (c.makeRoom key selected) charge code metadata := by
  simp only [reserve, bind_eq_ok, okOr_eq_ok, checkedAdd_eq_some,
    checkedSub_eq_some] at h
  obtain ⟨⟨_, _, _⟩, hreplaced, _, ⟨hretained, rfl⟩, _, ⟨hdesired, rfl⟩, _, ⟨hcode, rfl⟩, _,
    ⟨hmetadata, rfl⟩, hplan⟩ := h
  obtain ⟨hrep, hcharges⟩ := replacedCharges_eq_ok hreplaced
  simp only [Prod.mk.injEq] at hcharges
  obtain ⟨rfl, rfl, rfl⟩ := hcharges
  dsimp only at hretained hdesired hcode hmetadata hplan
  obtain ⟨p, rfl, hplanned, hbytes, hcodeFreed, hmetadataFreed⟩ := plan_planned hs hrep hplan
  have h₁ := hplanned.freed
  have h₂ := hplanned.freedCode
  have h₃ := hplanned.freedMetadata
  refine ⟨hrep, hplanned.cleared, ?_, ?_, ?_, fun hseparate => ?_, fun hseparate => ?_⟩
  · omega
  · omega
  · omega
  · rw [if_pos hseparate] at hcodeFreed
    omega
  · rw [if_pos hseparate] at hmetadataFreed
    omega

theorem charge_eq (h : c'.Fits c charge code metadata) :
    c.charge charge code metadata = ({ c with
      chargedBytes := c.chargedBytes + charge
      chargedCodeBytes := c.chargedCodeBytes + code
      chargedMetadataBytes := c.chargedMetadataBytes + metadata }, .ok ()) := by
  have hbytes := h.bytes
  simp [CodeCache.charge, checkedAdd, h.codeBytes, h.metadataBytes,
    show c.chargedBytes + charge ≤ usizeMax by omega]

theorem total_eq_zero {g : CachedArtifact → Nat}
    (h : ∀ key a, c.artifacts.get? key = some a → g (c.cells a) = 0) : c.total g = 0 := by
  unfold total
  refine List.sum_eq_zero fun n hn => ?_
  obtain ⟨entry, hentry, rfl⟩ := List.mem_map.mp hn
  exact h entry.1 entry.2 (mem_entries.mp hentry)

/-- The deopt pin of a new artifact with key `key` is on the baseline resident
under that key. -/
def TargetOf (c : CodeCache) (key : ArtifactKey) : Option Address → Prop
  | some a => key.tier = .optimizing ∧ c.artifacts.get? (key.withTier .baseline) = some a
  | none => key.tier = .baseline

theorem place_cells_new (c : CodeCache) (artifact : CompiledArtifact) (target : Option Address)
    (charge metadata : Nat) : (c.place artifact target charge metadata).cells c.next = {
      artifact, executionPins := 0, deoptReferences := 0, lastUsed := c.clock
      invalidated := false, deoptTarget := target, chargeBytes := charge
      codeBytes := artifact.codeBytes, metadataBytes := metadata, strong := 1 } :=
  update_self ..

theorem place_cells_old (h : d ≠ c.next) :
    (c.place artifact target charge metadata).cells d = c.cells d :=
  update_of_ne h ..

theorem place_content_old (h : d ≠ c.next) :
    (c.place artifact target charge metadata).content d = c.content d := by
  unfold content
  rw [place_cells_old h]

/-- `c'` has one more artifact than `c`, under a free key and in the next cell. -/
structure Adds (c c' : CodeCache) (key : ArtifactKey) : Prop where
  vacant : c.artifacts.get? key = none
  artifacts : c'.artifacts = c.artifacts.insert key c.next
  kept : ∀ {k a}, c.artifacts.get? k = some a → c'.cells a = c.cells a

namespace Adds

theorem stays (h : c.Adds c' key) {k : ArtifactKey} (ha : c.artifacts.get? k = some a) :
    c'.artifacts.get? k = some a := by
  rw [h.artifacts, get?_insert_ne _ _ fun heq => ?_]
  · exact ha
  · cases h.vacant.symm.trans (heq ▸ ha)

theorem total_eq (h : c.Adds c' key) (g : CachedArtifact → Nat) :
    c'.total g = g (c'.cells c.next) + c.total g :=
  total_insert h.artifacts h.vacant fun _ _ ha => congrArg g (h.kept ha)

/-- What holds of the new cell and held of the old ones holds of all. -/
theorem cells {P : ArtifactKey → Address → CachedArtifact → Prop} (h : c.Adds c' key)
    (hnew : P key c.next (c'.cells c.next))
    (hold : ∀ {k a}, c.artifacts.get? k = some a → P k a (c.cells a)) {k : ArtifactKey}
    (ha : c'.artifacts.get? k = some a) : P k a (c'.cells a) := by
  rcases get?_insert_cases (h.artifacts ▸ ha) with ⟨rfl, rfl⟩ | ha
  · exact hnew
  · rw [h.kept ha]
    exact hold ha

end Adds

namespace Sound

theorem next_free (hs : c.Sound pins held) : c.artifacts.get? key ≠ some c.next :=
  fun h => (hs.fresh h).ne rfl

theorem count_next (hs : c.Sound pins held) {l : List Address}
    (hl : ∀ {a}, a ∈ l → ∃ key, c.artifacts.get? key = some a) : l.count c.next = 0 :=
  List.count_eq_zero.mpr fun hmem =>
    let ⟨_, h⟩ := hl hmem
    hs.next_free h

theorem target_ne_next (hs : c.Sound pins held) (ha : c.artifacts.get? key = some a) :
    (c.cells a).deoptTarget ≠ some c.next := by
  intro h
  cases htier : key.tier with
  | baseline => cases (hs.no_target ha htier).symm.trans h
  | optimizing =>
    obtain ⟨b, hb, hres⟩ := hs.target ha htier
    exact hs.next_free ((Option.some.inj (hb.symm.trans h)) ▸ hres)

/-- Nobody refers to the next cell. -/
theorem total_refersTo_next (hs : c.Sound pins held) : c.total (refersTo c.next) = 0 :=
  total_eq_zero fun _ _ ha => if_neg (hs.target_ne_next ha)

/-- A new artifact that refers to `target` takes the place of an insertion's own
reference to it. -/
theorem references_new (hs : c.Sound pins (target.toList ++ held)) {x : CachedArtifact}
    (hx : x.deoptTarget = target) (ha : c.artifacts.get? key = some a) :
    (c.cells a).deoptReferences = refersTo a x + c.total (refersTo a) + held.count a := by
  rw [hs.references ha, List.count_append]
  subst hx
  cases hd : x.deoptTarget with
  | none => simp [refersTo, hd]
  | some t => by_cases htd : t = a <;> (simp [refersTo, hd, htd]; try omega)

/-- The new artifact takes over the deopt pin the insertion held. -/
theorem place (hs : c.Sound pins (target.toList ++ held))
    (hkey : c.artifacts.get? artifact.key = none) (ht : c.TargetOf artifact.key target) :
    ({ c with
      chargedBytes := c.chargedBytes + charge
      chargedCodeBytes := c.chargedCodeBytes + artifact.codeBytes
      chargedMetadataBytes := c.chargedMetadataBytes + metadata }.place artifact target charge
        metadata).Sound pins held := by
  generalize hc' : ({ c with
      chargedBytes := c.chargedBytes + charge
      chargedCodeBytes := c.chargedCodeBytes + artifact.codeBytes
      chargedMetadataBytes := c.chargedMetadataBytes + metadata }.place artifact target charge
        metadata) = c'
  have hnew : c'.cells c.next = {
      artifact, executionPins := 0, deoptReferences := 0, lastUsed := c.clock
      invalidated := false, deoptTarget := target, chargeBytes := charge
      codeBytes := artifact.codeBytes, metadataBytes := metadata, strong := 1 } := by
    rw [← hc']
    exact place_cells_new ..
  have hbenefit : c'.lastBenefitTarget = c.lastBenefitTarget := by rw [← hc']; rfl
  have hadds : c.Adds c' artifact.key := by
    refine ⟨hkey, by rw [← hc']; rfl, fun ha => ?_⟩
    rw [← hc']
    exact place_cells_old (hs.fresh ha).ne
  have htarget : ∀ {a}, target = some a → ∃ key, c.artifacts.get? key = some a := fun h =>
    hs.held_resident (List.mem_append_left _ (Option.mem_toList.mpr h))
  constructor <;> intros
  case key_eq ha => exact hadds.cells (P := fun k _ x => x.artifact.key = k) (by rw [hnew]) hs.key_eq ha
  case fresh ha =>
    have hnext : c'.next = c.next + 1 := by rw [← hc']; rfl
    rw [hnext]
    exact hadds.cells (P := fun _ a _ => a < c.next + 1) (Nat.lt_succ_self _)
      (fun ha => Nat.lt_succ_of_lt (hs.fresh ha)) ha
  case pinned ha =>
    refine hadds.cells (P := fun _ a x => x.executionPins = pins.count a) ?_ hs.pinned ha
    rw [hnew, hs.count_next hs.pins_resident]
  case references a ha =>
    rw [hadds.total_eq]
    refine hadds.cells (P := fun _ a x => x.deoptReferences =
      refersTo a (c'.cells c.next) + c.total (refersTo a) + held.count a) ?_ ?_ ha
    · have htargetNe : target ≠ some c.next := fun h =>
        let ⟨_, h⟩ := htarget h
        hs.next_free h
      rw [hs.total_refersTo_next,
        hs.count_next fun h => hs.held_resident (List.mem_append_right _ h), hnew]
      simp [refersTo, htargetNe]
    · exact hs.references_new (by rw [hnew])
  case owners ha =>
    rw [hbenefit]
    refine hadds.cells (P := fun _ a x => x.strong = 1 + (if c.lastBenefitTarget = some a then 1 else 0) +
      x.executionPins + x.deoptReferences) ?_ hs.owners ha
    rw [hnew, if_neg fun h => hs.next_free (hs.benefit_resident h).choose_spec]
    rfl
  case target key a ha htier =>
    refine hadds.cells (P := fun k _ x => k.tier = .optimizing → ∃ b, x.deoptTarget = some b ∧
      c'.artifacts.get? (k.withTier .baseline) = some b) (fun htier => ?_) (fun ha htier => ?_) ha htier
    · cases target with
      | none => cases htier.symm.trans ht
      | some b => exact ⟨b, by rw [hnew], hadds.stays ht.2⟩
    · exact (hs.target ha htier).imp fun _ h => ⟨h.1, hadds.stays h.2⟩
  case no_target ha htier =>
    refine hadds.cells (P := fun k _ x => k.tier = .baseline → x.deoptTarget = none)
      (fun htier => ?_) hs.no_target ha htier
    cases target with
    | none => rw [hnew]
    | some b => cases htier.symm.trans ht.1
  case pins_resident ha => exact (hs.pins_resident ha).imp fun _ => hadds.stays
  case held_resident ha =>
    exact (hs.held_resident (List.mem_append_right _ ha)).imp fun _ => hadds.stays
  case benefit_resident ha => exact (hs.benefit_resident (hbenefit ▸ ha)).imp fun _ => hadds.stays
  case charged =>
    rw [hadds.total_eq, hnew, ← hs.charged, ← hc']
    exact Nat.add_comm ..
  case chargedCode =>
    rw [hadds.total_eq, hnew, ← hs.chargedCode, ← hc']
    exact Nat.add_comm ..
  case chargedMetadata =>
    rw [hadds.total_eq, hnew, ← hs.chargedMetadata, ← hc']
    exact Nat.add_comm ..
  case removed hr =>
    refine hs.removed ?_
    rw [← hc'] at hr
    exact hr

end Sound

theorem deoptBaseline_eq_ok (h : c.deoptBaseline key = .ok target) :
    c.TargetOf key target := by
  unfold deoptBaseline at h
  split at h
  case h_1 htier =>
    split at h
    case h_1 a ha =>
      cases h
      exact ⟨htier, ha⟩
    case h_2 => cases h
  case h_2 htier =>
    cases h
    exact htier

theorem admission_eq_ok [TypeSizes] (h : c.admission artifact = .ok (charge, metadata)) :
    artifact.chargeBytes = some charge ∧ artifact.metadataBytes = some metadata := by
  simp only [admission, ite_fail_eq_ok, bind_eq_ok, okOr_eq_ok] at h
  obtain ⟨-, _, hcharge, _, hmetadata, -, -, heq⟩ := h
  cases heq
  exact ⟨hcharge, hmetadata⟩

theorem TargetOf.resident (h : c.TargetOf key target) {a : Address} (ha : target = some a) :
    ∃ key, c.artifacts.get? key = some a := by
  subst ha
  exact ⟨_, h.2⟩

@[simp] theorem hold_ledger (c : CodeCache) (target : Option Address) :
    (c.hold target).ledger = c.ledger := by
  cases target <;> rfl

@[simp] theorem hold_content (c : CodeCache) (target : Option Address) (d : Address) :
    (c.hold target).content d = c.content d := by
  cases target with
  | none => rfl
  | some a =>
    have h : (c.takeDeoptPin a).cells = update c.cells a _ := modify_cells c a _
    exact content_of_update h rfl d

@[simp] theorem unhold_ledger (c : CodeCache) (target : Option Address) :
    (c.unhold target).ledger = c.ledger := by
  cases target with
  | none => rfl
  | some a => exact dropDeoptPin_ledger c a

@[simp] theorem unhold_content (c : CodeCache) (target : Option Address) (d : Address) :
    (c.unhold target).content d = c.content d := by
  cases target with
  | none => rfl
  | some a => exact dropDeoptPin_content c a d

/-- What a successful insertion has done to the cache. -/
structure Inserted [TypeSizes] (c : CodeCache) (pins : List Address) (artifact : CompiledArtifact)
    (evicted : List ArtifactKey) (c' : CodeCache) : Prop where
  sound : c'.Sound pins []
  within : c'.Within
  bounded : c'.chargedBytes ≤ usizeMax
  limits_eq : c'.limits = c.limits
  get?_eq : ∀ key, c'.artifacts.get? key = if key = artifact.key then some c.next
    else if key ∈ evicted then none else c.artifacts.get? key
  content_eq : ∀ d, d ≠ c.next → c'.content d = c.content d
  artifact_eq : (c'.cells c.next).artifact = artifact
  valid : (c'.cells c.next).invalidated = false
  priced : (c'.cells c.next).Priced
  unpinned : ∀ key ∈ evicted, key ≠ artifact.key ∧ ∃ a, c.artifacts.get? key = some a ∧
    (c.cells a).executionPins = 0
  replaceable : c.Replaceable artifact.key
  baseline : artifact.key.tier = .optimizing →
    ∃ a, c.artifacts.get? (artifact.key.withTier .baseline) = some a

/-- What a failed insertion has done to the cache: nothing one can look up. -/
structure Refused (c : CodeCache) (pins : List Address) (c' : CodeCache) : Prop where
  sound : c'.Sound pins []
  ledger_eq : c'.ledger = c.ledger
  content_eq : ∀ d, c'.content d = c.content d

theorem Within.of_ledger (hw : c.Within) (hl : c'.ledger = c.ledger) : c'.Within := by
  have hcharges := ledger_charges hl
  have hframe := ledger_frame hl
  simp only [frame, limits, Prod.mk.injEq] at hframe
  obtain ⟨⟨hbytes, hseparate, hcode, hmetadata⟩, -⟩ := hframe
  constructor
  · rw [hcharges.1, hbytes]
    exact hw.bytes
  · rw [hcharges.2.1, hseparate, hcode]
    exact hw.code
  · rw [hcharges.2.2, hseparate, hmetadata]
    exact hw.metadata

/-- The new artifact in the room made for it. -/
theorem Cleared.place [TypeSizes] {room : CodeCache} (hs : c.Sound pins [])
    (hcharge : artifact.chargeBytes = some charge)
    (hmetadata : artifact.metadataBytes = some metadata) (ht : c.TargetOf artifact.key target)
    (hrep : (c.hold target).Replaceable artifact.key)
    (hcleared : (c.hold target).Cleared pins (target.toList ++ []) artifact.key selected room)
    (hfits : (c.hold target).Fits room charge artifact.codeBytes metadata) :
    c.Inserted pins artifact selected ({ room.nextTick with
      chargedBytes := room.chargedBytes + charge
      chargedCodeBytes := room.chargedCodeBytes + artifact.codeBytes
      chargedMetadataBytes := room.chargedMetadataBytes + metadata }.place artifact target charge
        metadata) := by
  have hart := ledger_artifacts (hold_ledger c target)
  have hframe := hcleared.frame_eq
  have hframe' := hframe.trans (ledger_frame (hold_ledger c target))
  simp only [frame, limits, Prod.mk.injEq] at hframe hframe'
  have hkey : room.artifacts.get? artifact.key = none := by
    rw [hcleared.get?_eq, if_pos (Or.inl rfl)]
  have htarget : room.TargetOf artifact.key target := by
    cases target with
    | none => exact ht
    | some b =>
      refine ⟨ht.1, ?_⟩
      obtain ⟨key', hkey'⟩ := hcleared.sound.held_resident (a := b) List.mem_cons_self
      have hget := hcleared.get?_eq key'
      rw [hkey', hart] at hget
      split at hget
      · cases hget
      · rw [hs.key_unique ht.2 hget.symm]
        exact hkey'
  constructor
  case sound => exact hcleared.sound.nextTick.place hkey htarget
  case within =>
    constructor
    · exact (hfits.bytes.trans (Nat.min_le_left ..)).trans_eq hframe.1.1.symm
    · intro hseparate
      exact (hfits.codeLimit (hframe.1.2.1 ▸ hseparate)).trans_eq hframe.1.2.2.1.symm
    · intro hseparate
      exact (hfits.metadataLimit (hframe.1.2.1 ▸ hseparate)).trans_eq hframe.1.2.2.2.symm
  case bounded => exact hfits.bytes.trans (Nat.min_le_right ..)
  case limits_eq =>
    simp only [limits, Prod.mk.injEq]
    exact hframe'.1
  case get?_eq =>
    intro key
    show (room.artifacts.insert artifact.key room.next).get? key = _
    rw [get?_insert, hcleared.get?_eq, hart, hframe'.2]
    by_cases hk : key = artifact.key
    · simp [hk]
    · simp [hk, Ne.symm hk]
  case content_eq =>
    intro d hd
    rw [← hold_content c target d, ← hcleared.content_eq d]
    rw [← hframe'.2] at hd
    exact place_content_old hd
  case artifact_eq =>
    rw [← hframe'.2]
    exact congrArg CachedArtifact.artifact (place_cells_new ..)
  case valid =>
    rw [← hframe'.2]
    exact congrArg CachedArtifact.invalidated (place_cells_new ..)
  case priced =>
    rw [← hframe'.2]
    refine (congrArg CachedArtifact.Priced (place_cells_new ..)).mpr ?_
    exact ⟨hcharge, rfl, hmetadata⟩
  case unpinned =>
    intro key hmem
    obtain ⟨hne, a, ha, hpins⟩ := hcleared.unpinned key hmem
    exact ⟨hne, a, hart ▸ ha, (content_executionPins (hold_content c target a)).symm.trans hpins⟩
  case replaceable =>
    intro a ha
    obtain ⟨hpins, hrefs⟩ := hrep a (hart ▸ ha)
    refine ⟨(content_executionPins (hold_content c target a)).symm.trans hpins, ?_⟩
    have hheld := (hs.hold fun _ h => ht.resident h).references (hart ▸ ha)
    have htotal : (c.hold target).total (refersTo a) = c.total (refersTo a) :=
      total_congr hart fun key d _ => by
        unfold refersTo
        rw [content_deoptTarget (hold_content c target d)]
    have hreferences := hs.references ha
    rw [List.count_nil] at hreferences
    omega
  case baseline =>
    intro htier
    cases target with
    | none => cases htier.symm.trans ht
    | some b => exact ⟨b, ht.2⟩

/-- `insert` either refuses and leaves the map alone, or has inserted. -/
theorem insert_spec [TypeSizes] (hs : c.Sound pins []) (artifact : CompiledArtifact) :
    (∃ c' e, c.insert artifact = (c', .error e) ∧ c.Refused pins c') ∨
      ∃ c' evicted, c.insert artifact = (c', .ok evicted) ∧ c.Inserted pins artifact evicted c' := by
  unfold insert
  split
  case h_1 e _ => exact .inl ⟨c, e, rfl, hs, rfl, fun _ => rfl⟩
  case h_2 charge metadata hadmit =>
  obtain ⟨hchargeBytes, hmetadataBytes⟩ := admission_eq_ok hadmit
  split
  case h_1 e _ => exact .inl ⟨c, e, rfl, hs, rfl, fun _ => rfl⟩
  case h_2 target htarget =>
  have ht := deoptBaseline_eq_ok htarget
  have hs₁ : (c.hold target).Sound pins (target.toList ++ []) := hs.hold fun _ h => ht.resident h
  dsimp only
  split
  case h_1 e _ => exact .inl ⟨_, e, rfl, hs₁.unhold, by simp, by simp⟩
  case h_2 selected hreserve =>
  obtain ⟨hrep, hcleared, hfits⟩ := reserve_fits hs₁ hreserve
  have hticked : (c.hold target).Fits ((c.hold target).makeRoom artifact.key selected).nextTick
      charge artifact.codeBytes metadata :=
    ⟨hfits.bytes, hfits.codeBytes, hfits.metadataBytes, hfits.codeLimit, hfits.metadataLimit⟩
  have hcharge := charge_eq hticked
  refine .inr ⟨_, selected, ?_,
    hcleared.place hs hchargeBytes hmetadataBytes ht hrep hfits⟩
  unfold commit
  rw [hcharge]
  rfl

end CodeCache

end QuickJit
