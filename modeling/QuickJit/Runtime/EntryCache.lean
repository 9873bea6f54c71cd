import QuickJit.Runtime.Backend

/-
  Cached entries and the epoch of the entry cache.

  A callback either leaves what is installed alone (`Settled`) or moves to a
  later epoch (`Bumps`), where 0 comes after every other epoch and is never
  left. Both compose (`Moves.trans`), so every run of callbacks is one or the
  other, and a run that ends in the epoch it started in has changed nothing that
  is installed (`cached_entry_current`).
-/

namespace QuickJit

open Coordinator

variable {a : Address} {c : Coordinator} {key : FunctionKey}

/-! ## What leaves the installed keys alone -/

theorem CodeCache.pin_get? {c c' : CodeCache} {key : ArtifactKey} (h : c.pin key = (c', some a)) :
    c'.artifacts.get? key = some a := by
  unfold CodeCache.pin at h
  dsimp only at h
  split at h
  case h_2 => cases h
  case h_1 a' hget =>
    split at h
    case isTrue => cases h
    case isFalse =>
      obtain ⟨rfl, hpin⟩ := Prod.mk.inj h
      exact hget.trans hpin

namespace Coordinator

theorem pin_installedKeys (c : Coordinator) (key : FunctionKey) (tier : Tier) :
    (c.pin key tier).1.installedKeys = c.installedKeys := by
  unfold pin
  split
  · rfl
  · split
    · rfl
    · split <;> rfl

theorem prepareBaselineDirectRefresh_refused (h : (c.prepareBaselineDirectRefresh key).2 = false) :
    (c.prepareBaselineDirectRefresh key).1.installedKeys = c.installedKeys := by
  unfold prepareBaselineDirectRefresh at h ⊢
  dsimp only at h ⊢
  split at h
  · cases h
  · rw [if_neg ‹_›]

theorem demoteUnprofitableOptimized_refused (h : (c.demoteUnprofitableOptimized key).2 = false) :
    (c.demoteUnprofitableOptimized key).1.installedKeys = c.installedKeys := by
  unfold demoteUnprofitableOptimized at h ⊢
  dsimp only at h ⊢
  split at h
  · cases h
  · rw [if_neg ‹_›]

theorem recordBenefit_installedKeys (c : Coordinator) (key : FunctionKey) (tier : Tier)
    (savedNs : Nat) : (c.recordBenefit key tier savedNs).1.installedKeys = c.installedKeys := by
  unfold recordBenefit
  dsimp only
  split <;> rfl

theorem pin_installed {tier : Tier} (h : (c.pin key tier).2 = some a) :
    ∃ artifact, c.installedKeys key tier = some artifact ∧
      (c.pin key tier).1.cache.artifacts.get? artifact = some a := by
  unfold pin at h ⊢
  split at h
  case h_1 => cases h
  case h_2 artifact hinstalled =>
    refine ⟨artifact, hinstalled, ?_⟩
    split at h
    case h_1 => cases h
    case h_2 cache pin hpin =>
      split at h
      case isTrue => cases h
      case isFalse hstale =>
        obtain rfl := Option.some.inj h
        rw [if_neg hstale]
        exact CodeCache.pin_get? hpin

end Coordinator

namespace ProductionBackend

variable {b b' b'' : ProductionBackend}

/-- What the work of a callback on the coordinator leaves alone. -/
structure Works (b b' : ProductionBackend) : Prop where
  epoch : b'.entryCacheEpoch = b.entryCacheEpoch
  fast : b'.fastEntryEpoch = b.fastEntryEpoch
  ok : b.system.Ok → b'.system.Ok

/-- Nothing was installed or uninstalled. -/
structure Settled (b b' : ProductionBackend) : Prop extends Works b b' where
  installed : b'.system.coordinator.installedKeys = b.system.coordinator.installedKeys
  installs : b'.installs = b.installs

/-- A later epoch was entered. -/
structure Bumps (b b' : ProductionBackend) : Prop where
  later : b'.entryCacheEpoch = 0 ∨ b.entryCacheEpoch ≠ 0 ∧ b.entryCacheEpoch < b'.entryCacheEpoch
  fast : b'.fastEntryEpoch = b'.entryCacheEpoch
  ok : b.system.Ok → b'.system.Ok

/-- What a callback does. -/
def Moves (b b' : ProductionBackend) : Prop := Settled b b' ∨ Bumps b b'

theorem Works.refl (b : ProductionBackend) : Works b b := ⟨rfl, rfl, id⟩

theorem Works.trans (h : Works b b') (h' : Works b' b'') : Works b b'' :=
  ⟨h'.epoch.trans h.epoch, h'.fast.trans h.fast, h'.ok ∘ h.ok⟩

theorem Works.foldl {α : Type} {f : ProductionBackend → α → ProductionBackend}
    (hf : ∀ b x, Works b (f b x)) (xs : List α) (b : ProductionBackend) : Works b (xs.foldl f b) := by
  induction xs generalizing b with
  | nil => exact .refl b
  | cons x xs ih => exact (hf b x).trans (ih _)

theorem Settled.refl (b : ProductionBackend) : Settled b b := ⟨.refl b, rfl, rfl⟩

theorem Settled.trans (h : Settled b b') (h' : Settled b' b'') : Settled b b'' :=
  ⟨h.toWorks.trans h'.toWorks, h'.installed.trans h.installed, h'.installs.trans h.installs⟩

theorem Settled.foldl {α : Type} {f : ProductionBackend → α → ProductionBackend}
    (hf : ∀ b x, Settled b (f b x)) (xs : List α) (b : ProductionBackend) :
    Settled b (xs.foldl f b) := by
  induction xs generalizing b with
  | nil => exact .refl b
  | cons x xs ih => exact (hf b x).trans (ih _)

/-- Work after a new epoch belongs to that epoch. -/
theorem Bumps.works (h : Bumps b b') (h' : Works b' b'') : Bumps b b'' where
  later := h'.epoch ▸ h.later
  fast := h'.fast.trans (h.fast.trans h'.epoch.symm)
  ok := h'.ok ∘ h.ok

theorem Works.bumps (h : Works b b') (h' : Bumps b' b'') : Bumps b b'' where
  later := h.epoch ▸ h'.later
  fast := h'.fast
  ok := h'.ok ∘ h.ok

theorem Bumps.trans (h : Bumps b b') (h' : Bumps b' b'') : Bumps b b'' where
  later := by
    rcases h'.later with hzero | ⟨hne, hlt⟩
    · exact .inl hzero
    · rcases h.later with hzero | ⟨hne', hlt'⟩
      · exact absurd hzero hne
      · exact .inr ⟨hne', hlt'.trans hlt⟩
  fast := h'.fast
  ok := h'.ok ∘ h.ok

theorem Moves.ok (h : Moves b b') : b.system.Ok → b'.system.Ok := h.elim (·.ok) Bumps.ok

theorem Moves.refl (b : ProductionBackend) : Moves b b := .inl (.refl b)

theorem Moves.trans (h : Moves b b') (h' : Moves b' b'') : Moves b b'' := by
  rcases h with h | h <;> rcases h' with h' | h'
  · exact .inl (h.trans h')
  · exact .inr (h.toWorks.bumps h')
  · exact .inr (h.works h'.toWorks)
  · exact .inr (h.trans h')

/-- A callback that only changes what decides about later ones. -/
theorem Moves.of_same (hepoch : b'.entryCacheEpoch = b.entryCacheEpoch)
    (hfast : b'.fastEntryEpoch = b.fastEntryEpoch) (hsystem : b'.system = b.system)
    (hinstalls : b'.installs = b.installs) : Moves b b' :=
  .inl ⟨⟨hepoch, hfast, fun h => hsystem ▸ h⟩, by rw [hsystem], hinstalls⟩

theorem nextEpoch_later (epoch : Nat) :
    nextEpoch epoch = 0 ∨ epoch ≠ 0 ∧ epoch < nextEpoch epoch := by
  unfold nextEpoch
  split
  · exact .inl rfl
  · split
    · exact .inr ⟨‹_›, Nat.lt_succ_self _⟩
    · exact .inl rfl

theorem invalidateEntryCache_bumps (b : ProductionBackend) : Bumps b b.invalidateEntryCache :=
  ⟨nextEpoch_later _, rfl, id⟩

/-! ## Maintenance -/

variable [TypeSizes]

theorem operate_works (b : ProductionBackend) (op : CoordinatorOp) : Works b (b.operate op) :=
  ⟨rfl, rfl, JitSystem.step_ok b.system op⟩

theorem Works.operate (h : Works b b') (op : CoordinatorOp) : Works b (b'.operate op) :=
  h.trans (operate_works b' op)

section

variable (b : ProductionBackend)

theorem complete_works (completions : List CompileCompletion) :
    Works b (b.complete completions) :=
  .foldl (fun b _ => operate_works b _) completions b

/-- An operation that is no completion installs nothing. -/
theorem operate_settled {op : CoordinatorOp} (hnone : b.installedBy op = [])
    (hkeys : (b.system.step op).coordinator.installedKeys = b.system.coordinator.installedKeys) :
    Settled b (b.operate op) :=
  ⟨operate_works b op, hkeys, by simp [operate, hnone]⟩

theorem operate_pin_settled (key : FunctionKey) (tier : Tier) :
    Settled b (b.operate (.pin key tier)) :=
  operate_settled b rfl (pin_installedKeys ..)

theorem operate_dropPin_settled (pin : Address) :
    Settled b (b.operate (.dropPin pin)) := by
  refine operate_settled b rfl ?_
  simp only [JitSystem.step]
  split <;> rfl

theorem probe_settled (target : FunctionKey × Tier) :
    Settled b (b.probe target) := by
  unfold probe
  split
  · exact (operate_pin_settled ..).trans (operate_dropPin_settled ..)
  · exact operate_pin_settled ..

theorem refresh_works (r : Refresh) : Works b (b.refresh r) := by
  unfold refresh
  split
  · exact (operate_works ..).trans (operate_works ..)
  · exact operate_works ..

theorem retireToInterpreter_works (key : FunctionKey) :
    Works b (b.retireToInterpreter key) := by
  refine Works.operate ?_ _
  exact ⟨rfl, rfl, id⟩

theorem approve_works (key : FunctionKey) (snapshot : VerifiedSnapshot)
    (feedback : FeedbackSnapshot) (targets : CallTargets) :
    Works b (b.approve key snapshot feedback targets) := by
  have hqueue := operate_works b (.queue key .optimizing snapshot feedback targets)
  unfold approve
  split
  · exact hqueue
  · dsimp only
    split
    · refine Works.operate ?_ _
      exact ⟨hqueue.epoch, hqueue.fast, hqueue.ok⟩
    · exact ⟨hqueue.epoch, hqueue.fast, hqueue.ok⟩

theorem consider_works (candidate : Candidate) :
    Works b (b.consider candidate) := by
  have hprobes : Works b (candidate.probes.foldl probe b) :=
    .foldl (fun b target => (probe_settled b target).toWorks) _ b
  unfold consider
  dsimp only
  split
  · exact hprobes
  · exact hprobes.trans (retireToInterpreter_works ..)
  · exact hprobes.trans (retireToInterpreter_works ..)
  · split
    · split
      · refine Works.operate ?_ _
        exact ⟨hprobes.epoch, hprobes.fast, hprobes.ok⟩
      · exact ⟨hprobes.epoch, hprobes.fast, hprobes.ok⟩
    · exact hprobes
  · exact hprobes.trans (approve_works ..)

theorem dispatchNext_works (d : Dispatched) : Works b (b.dispatchNext d) := by
  refine (complete_works b d.overflow).trans ?_
  unfold dispatchNext
  dsimp only
  split
  · exact .refl _
  · split
    · exact (operate_works ..).trans (operate_works ..)
    · exact operate_works ..

/-- Maintenance enters a new epoch first. -/
theorem maintenance_bumps (plan : MaintenancePlan) :
    Bumps b (b.maintenance plan) := by
  refine (invalidateEntryCache_bumps b).works ?_
  refine Works.trans ?_ (Works.foldl dispatchNext_works plan.dispatches _)
  refine Works.trans ?_ (complete_works _ plan.overflow)
  refine Works.trans ?_ (Works.foldl consider_works plan.candidates _)
  refine Works.trans ?_ (Works.foldl refresh_works plan.refreshes _)
  refine Works.trans ?_ (Works.foldl (fun b target => (probe_settled b target).toWorks) plan.probes _)
  refine Works.trans ?_ (complete_works _ plan.completions)
  refine Works.operate (Works.operate ?_ _) _
  exact ⟨rfl, rfl, id⟩

theorem maintenanceIfDue_moves (due : Bool) (plan : MaintenancePlan) :
    Moves b (b.maintenanceIfDue due plan) := by
  unfold maintenanceIfDue
  dsimp only
  split
  · have hbumps := maintenance_bumps
      { b with hotTicksSinceMaintenance := b.hotTicksSinceMaintenance + 1 } plan
    exact .inr ⟨hbumps.later, hbumps.fast, hbumps.ok⟩
  · refine .inl ⟨Works.operate ?_ _, rfl, List.append_nil _⟩
    exact ⟨rfl, rfl, id⟩

/-! ## Callbacks -/

theorem recordHot_moves (key : FunctionKey) (count : Nat) (due : Bool) (plan : MaintenancePlan)
    (probing : Bool) (probes : List (FunctionKey × Tier)) (ready : Bool) :
    Moves b (b.recordHot key count due plan probing probes ready) := by
  unfold recordHot
  split
  · exact .refl b
  split
  · exact .of_same rfl rfl rfl rfl
  refine (maintenanceIfDue_moves b due plan).trans ?_
  generalize b.maintenanceIfDue due plan = b
  dsimp only
  split
  · refine Moves.trans (.inl (Settled.foldl probe_settled probes b)) ?_
    generalize probes.foldl probe b = b
    split
    · split
      · exact .inr ((operate_works b _).bumps (invalidateEntryCache_bumps _))
      case isFalse hrefused =>
        refine .inl (operate_settled b rfl ?_)
        exact prepareBaselineDirectRefresh_refused (by simpa using hrefused)
    · exact .refl b
  · exact .refl b

omit [TypeSizes] in
theorem recordFeedback_moves (key : FunctionKey) (wellFormed : Bool) :
    Moves b (b.recordFeedback key wellFormed) := by
  unfold recordFeedback
  split
  · exact .refl b
  · exact .of_same rfl rfl rfl rfl

theorem submitSnapshot_moves (submission : Submission) (plan : MaintenancePlan) :
    Moves b (b.submitSnapshot submission plan) := by
  cases submission with
  | invalid key => exact .of_same rfl rfl rfl rfl
  | overLimit key => exact .inr (maintenance_bumps b plan)
  | parked => exact .inr (maintenance_bumps b plan)
  | rejected key =>
    have hworks := operate_works b (.rejectTier1 key .baseline)
    refine .inr (Works.bumps ?_ (maintenance_bumps _ plan))
    exact ⟨hworks.epoch, hworks.fast, hworks.ok⟩
  | queued key snapshot feedback targets =>
    exact .inr ((operate_works b _).bumps (maintenance_bumps _ plan))

theorem acquireEntry_moves (key : FunctionKey) (due : Bool) (plan : MaintenancePlan) (usable : Bool) :
    Moves b (b.acquireEntry key due plan usable).1 := by
  unfold acquireEntry
  split
  · exact .refl b
  split
  · exact .refl b
  refine (maintenanceIfDue_moves b due plan).trans ?_
  generalize b.maintenanceIfDue due plan = b
  dsimp only
  split
  · exact .inl (operate_pin_settled ..)
  · have hpin := operate_pin_settled b key
      (if (b.tierState key .optimizing).isInstalled = true then .optimizing else .baseline)
    split
    · exact .inl ⟨⟨hpin.epoch, hpin.fast, hpin.ok⟩, hpin.installed, hpin.installs⟩
    · exact .inl (hpin.trans (operate_dropPin_settled ..))

theorem settleTrial_moves (exit : NativeExit) :
    Moves b (b.settleTrial exit) := by
  unfold settleTrial
  split
  · exact .refl b
  · exact .of_same rfl rfl rfl rfl
  · have hpop : Moves b { b with executionStarts := b.executionStarts.tail } :=
      .of_same rfl rfl rfl rfl
    refine hpop.trans ?_
    generalize ({ b with executionStarts := b.executionStarts.tail } : ProductionBackend) = b
    dsimp only
    have hbenefit : Settled b (if exit.kind = .done ∧ exit.savedNs ≠ 0 then
        b.operate (.recordBenefit exit.key .optimizing exit.savedNs) else b) := by
      split
      · exact operate_settled b rfl (recordBenefit_installedKeys ..)
      · exact .refl b
    refine Moves.trans (.inl hbenefit) ?_
    generalize (if exit.kind = .done ∧ exit.savedNs ≠ 0 then
      b.operate (.recordBenefit exit.key .optimizing exit.savedNs) else b) = b
    split
    · split
      · exact .inr ((operate_works b _).bumps (invalidateEntryCache_bumps _))
      case isFalse hrefused =>
        refine .inl (operate_settled b rfl ?_)
        exact demoteUnprofitableOptimized_refused (by simpa using hrefused)
    · exact .refl b

theorem recordDeopt_bumps (exit : NativeExit) :
    Bumps b (b.recordDeopt exit) := by
  refine (invalidateEntryCache_bumps b).works ?_
  unfold recordDeopt
  dsimp only
  split
  · exact .refl _
  · split
    · split
      · exact ((operate_works ..).trans (probe_settled ..).toWorks).operate _
      · exact (operate_works ..).trans (probe_settled ..).toWorks
    · exact operate_works ..

theorem nativeExit_moves (exit : NativeExit) (due : Bool) (plan : MaintenancePlan) :
    Moves b (b.nativeExit exit due plan) := by
  refine (settleTrial_moves b exit).trans (Moves.trans ?_ (maintenanceIfDue_moves _ due plan))
  split
  · exact .inr (recordDeopt_bumps ..)
  · exact .refl _

theorem functionRetire_bumps (key : FunctionKey) (plan : MaintenancePlan) :
    Bumps b (b.functionRetire key plan) := by
  refine Works.bumps (Works.operate ?_ _) (maintenance_bumps _ plan)
  exact ⟨rfl, rfl, id⟩

theorem runtimeDetach_bumps (overflow : List CompileCompletion)
    (drains : List (List CompileCompletion)) (plan : MaintenancePlan) :
    Bumps b (b.runtimeDetach overflow drains plan) := by
  have hzero : Bumps b { b with entryCacheEpoch := 0, fastEntryEpoch := 0 } := ⟨.inl rfl, rfl, id⟩
  refine Bumps.trans (hzero.works ?_) (maintenance_bumps _ plan)
  refine Works.operate ?_ _
  refine (complete_works _ overflow).trans (Works.foldl (fun b drain => ?_) drains _)
  exact (operate_works b _).trans (complete_works _ drain)

/-- Every callback leaves what is installed alone or enters a later epoch. -/
theorem step_moves (callback : Callback) : Moves b (b.step callback) := by
  cases callback with
  | poll plan => exact .inr (maintenance_bumps b plan)
  | recordHot key count due plan probing probes ready => exact recordHot_moves ..
  | recordFeedback key wellFormed => exact recordFeedback_moves ..
  | submitSnapshot submission plan => exact submitSnapshot_moves ..
  | acquireEntry key due plan usable => exact acquireEntry_moves ..
  | releaseEntry pin => exact .inl (operate_dropPin_settled b pin)
  | nativeEnter key => exact .of_same rfl rfl rfl rfl
  | entryFastGrant key => exact .refl b
  | nativeExit exit due plan => exact nativeExit_moves ..
  | functionRetire key plan => exact .inr (functionRetire_bumps ..)
  | runtimeDetach overflow drains plan => exact .inr (runtimeDetach_bumps ..)

theorem runs_moves (callbacks : List Callback) :
    Moves b (runs step b callbacks) :=
  runs_inv (P := Moves b) (fun b' callback h => h.trans (step_moves b' callback)) (.refl b) callbacks

end

/-! ## Cached entries -/

theorem acquireEntry_installed {b : ProductionBackend} (hok : b.system.Ok) {due usable : Bool}
    {plan : MaintenancePlan} {tier : Tier}
    (h : (b.acquireEntry key due plan usable).2 = some (tier, a)) :
    (b.acquireEntry key due plan usable).1.system.coordinator.installedKeys key tier =
      some ((b.acquireEntry key due plan usable).1.system.coordinator.cache.cells a).artifact.key := by
  have hok' := (acquireEntry_moves b key due plan usable).ok hok
  unfold acquireEntry at h hok' ⊢
  split at h
  case isTrue => cases h
  case isFalse henabled =>
  rw [if_neg henabled] at hok' ⊢
  split at h
  case isTrue => cases h
  case isFalse hlisted =>
  rw [if_neg hlisted] at hok' ⊢
  generalize b.maintenanceIfDue due plan = b' at *
  dsimp only at h hok' ⊢
  generalize (if (b'.tierState key .optimizing).isInstalled = true then Tier.optimizing
    else .baseline) = t at *
  cases hpin : (b'.system.coordinator.pin key t).2 with
  | none =>
    rw [hpin] at h
    cases h
  | some pin =>
    simp only [hpin] at h hok' ⊢
    cases usable with
    | false => cases h
    | true =>
      obtain ⟨rfl, rfl⟩ := Prod.mk.inj (Option.some.inj h)
      obtain ⟨artifact, hinstalled, hget⟩ := pin_installed hpin
      have hsame := congrFun (congrFun (pin_installedKeys b'.system.coordinator key t) key) t
      exact (hsame.trans hinstalled).trans (congrArg some (hok'.sound.key_eq hget).symm)

/-- An entry acquired in an epoch is current as long as the epoch lasts. -/
theorem cached_entry_current (maxQueueLen maxAttempts : Nat) (limits : CacheLimits)
    (environment : ArtifactEnvironment) (before : List Callback) (key : FunctionKey)
    (due usable : Bool) (plan : MaintenancePlan) (after : List Callback) :
    let b := runs step (new maxQueueLen maxAttempts limits environment) before
    let acquired := b.acquireEntry key due plan usable
    let later := runs step acquired.1 after
    (∀ tier a, acquired.2 = some (tier, a) → acquired.1.entryCacheEpoch ≠ 0 →
      later.entryCacheEpoch = acquired.1.entryCacheEpoch →
      later.system.coordinator.installedKeys key tier =
          some (acquired.1.system.coordinator.cache.cells a).artifact.key ∧
        later.installs = acquired.1.installs) ∧
      b.fastEntryEpoch = b.entryCacheEpoch ∧
      (b.entryCacheEpoch = 0 → (runs step b after).entryCacheEpoch = 0) := by
  intro b acquired later
  have hbefore : Moves (new maxQueueLen maxAttempts limits environment) b := runs_moves _ before
  refine ⟨?_, ?_, ?_⟩
  · intro tier a hentry hne hsame
    have hok := hbefore.ok JitSystem.start_ok
    have hinstalled := acquireEntry_installed hok hentry
    -- a run that ends in its first epoch has not entered a later one
    rcases runs_moves acquired.1 after with hsettled | hbumps
    · exact ⟨(congrFun (congrFun hsettled.installed key) tier).trans hinstalled, hsettled.installs⟩
    · rcases hbumps.later with hzero | ⟨-, hlt⟩
      · exact absurd (hsame.symm.trans hzero) hne
      · exact absurd hsame (Nat.ne_of_gt hlt)
  · rcases hbefore with hsettled | hbumps
    · exact hsettled.fast.trans hsettled.epoch.symm
    · exact hbumps.fast
  · intro hzero
    rcases runs_moves b after with hsettled | hbumps
    · exact hsettled.epoch.trans hzero
    · exact hbumps.later.elim id fun h => absurd hzero h.1

end ProductionBackend

open Sample

/-- A pass that decides nothing. -/
def idlePlan : MaintenancePlan := ⟨[], [], [], [], [], []⟩

/-- Submit a function, hand its baseline to a worker and install it. -/
def installedBaseline : List Callback :=
  let key := sampleKey ⟨1, 1⟩ .baseline 0
  [.submitSnapshot (.queued ⟨1, 1⟩ emptyFunction (sampleFeedback 0) ⟨[], none⟩)
      { idlePlan with dispatches := [⟨[], false, false⟩] },
    .poll { idlePlan with
      completions := [⟨⟨1, 1⟩, .baseline, key, 1, .ok (sampleArtifact key 10 [])⟩] }]

/-- The baseline is entered, and stays current while it runs. -/
theorem cached_entry_current_baseline :
    let b := runs ProductionBackend.step (.new 8 3 (.shared 1000) sampleEnvironment) installedBaseline
    let acquired := b.acquireEntry ⟨1, 1⟩ false idlePlan true
    let later := runs ProductionBackend.step acquired.1
      [.nativeEnter ⟨1, 1⟩, .recordFeedback ⟨1, 1⟩ true]
    acquired.2 = some (.baseline, 0) ∧
      later.system.coordinator.installedKeys ⟨1, 1⟩ .baseline =
        some (acquired.1.system.coordinator.cache.cells 0).artifact.key := by
  intro b acquired later
  have hentry : acquired.2 = some (.baseline, 0) := by decide +kernel
  have hcurrent := (ProductionBackend.cached_entry_current 8 3 (.shared 1000) sampleEnvironment
    installedBaseline ⟨1, 1⟩ false true idlePlan
      [.nativeEnter ⟨1, 1⟩, .recordFeedback ⟨1, 1⟩ true]).1
  exact ⟨hentry, (hcurrent .baseline 0 hentry (by decide +kernel) (by decide +kernel)).1⟩

end QuickJit
