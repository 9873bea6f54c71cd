import QuickJit.Bytecode.Sample
import QuickJit.Bytecode.Work

/-
  The budget the inliner verifies callees with (`runtime/coordinator.rs`,
  `FrameInlineBudget`) and the storage a snapshot keeps alive
  (`CompileSnapshot::retained_bytes` in `bytecode/mod.rs`).

  The budget gives the verifier smaller limits than the default ones, among
  them a bound on its work that is computed from the slots and instructions
  left. `verify_sufficient` says that the bound is never the reason to reject.

  What a vector's capacity is and how large a Rust type is are inputs: a
  capacity is at least the length, a type at least as large as its fields.
-/

namespace QuickJit

/-- `size_of::<Vec<T>>()`: pointer, capacity and length. -/
def vecSize : Nat := 24

/-- The sizes of the types a snapshot is stored in. -/
structure SnapshotLayout where
  snapshotData : Nat
  osrPoint : Nat
  deoptPoint : Nat
  slotKind : Nat
  snapshotData_le : 6 * vecSize ≤ snapshotData
  osrPoint_le : 4 + vecSize ≤ osrPoint
  deoptPoint_le : 4 + 2 * vecSize ≤ deoptPoint
  slotKind_le : 1 ≤ slotKind

/-- The capacities of a snapshot's vectors. -/
structure SnapshotStorage (snapshot : CompileSnapshot) where
  bytecode : Nat
  constants : Nat
  exceptionMap : Nat
  sourceMap : Nat
  osrPoints : Nat
  deoptPoints : Nat
  /-- Of `live_slots`, for each OSR point. -/
  liveSlots : List Nat
  /-- Of `before` and `after`, for each deopt point. -/
  frames : List (Nat × Nat)
  bytecode_le : snapshot.bytecode.length ≤ bytecode
  constants_le : snapshot.constants.length ≤ constants
  exceptionMap_le : snapshot.exceptionMap.length ≤ exceptionMap
  sourceMap_le : snapshot.sourceMap.length ≤ sourceMap
  osrPoints_le : snapshot.metadata.osrPoints.length ≤ osrPoints
  deoptPoints_le : snapshot.metadata.deoptPoints.length ≤ deoptPoints
  liveSlots_le : List.Forall₂ (fun point capacity => point.liveSlots.length ≤ capacity)
    snapshot.metadata.osrPoints liveSlots
  frames_le : List.Forall₂ (fun point (capacity : Nat × Nat) =>
    point.before.length ≤ capacity.1 ∧ point.after.length ≤ capacity.2)
    snapshot.metadata.deoptPoints frames

/-- A snapshot without spare capacity. -/
def SnapshotStorage.exact (snapshot : CompileSnapshot) : SnapshotStorage snapshot where
  bytecode := snapshot.bytecode.length
  constants := snapshot.constants.length
  exceptionMap := snapshot.exceptionMap.length
  sourceMap := snapshot.sourceMap.length
  osrPoints := snapshot.metadata.osrPoints.length
  deoptPoints := snapshot.metadata.deoptPoints.length
  liveSlots := snapshot.metadata.osrPoints.map fun point => point.liveSlots.length
  frames := snapshot.metadata.deoptPoints.map fun point => (point.before.length, point.after.length)
  bytecode_le := Nat.le_refl _
  constants_le := Nat.le_refl _
  exceptionMap_le := Nat.le_refl _
  sourceMap_le := Nat.le_refl _
  osrPoints_le := Nat.le_refl _
  deoptPoints_le := Nat.le_refl _
  liveSlots_le := List.forall₂_map_right_iff.mpr (List.forall₂_same.mpr fun _ _ => Nat.le_refl _)
  frames_le := List.forall₂_map_right_iff.mpr
    (List.forall₂_same.mpr fun _ _ => ⟨Nat.le_refl _, Nat.le_refl _⟩)

/-- Sizes as a 64-bit build has them. -/
def sampleLayout : SnapshotLayout where
  snapshotData := 200
  osrPoint := 32
  deoptPoint := 56
  slotKind := 1
  snapshotData_le := by decide
  osrPoint_le := by decide
  deoptPoint_le := by decide
  slotKind_le := by decide

/-- `CompileSnapshot::retained_bytes`. -/
def retainedBytes (layout : SnapshotLayout) {snapshot : CompileSnapshot}
    (storage : SnapshotStorage snapshot) : Nat :=
  let bytes := satAdd layout.snapshotData (2 * 8)
  -- capacity and element size of each vector
  let bytes := [(storage.bytecode, 1), (storage.constants, constantDescriptorSize),
    (storage.exceptionMap, 1), (storage.sourceMap, 1), (storage.osrPoints, layout.osrPoint),
    (storage.deoptPoints, layout.deoptPoint)].foldl (fun bytes vector =>
      satAdd bytes (satMul vector.1 vector.2)) bytes
  let bytes := storage.liveSlots.foldl (fun bytes capacity =>
    satAdd bytes (satMul capacity layout.slotKind)) bytes
  storage.frames.foldl (fun bytes capacity =>
    satAdd (satAdd bytes (satMul capacity.1 layout.slotKind))
      (satMul capacity.2 layout.slotKind)) bytes

structure FrameInlineBudget where
  sitesLeft : Nat
  instructionsLeft : Nat
  slotsLeft : Nat
  bytesLeft : Nat
  cancelled : Bool
  deriving DecidableEq, Repr

/-- The slots of a frame: arguments, locals and operand stack. -/
def frameSlots (snapshot : CompileSnapshot) : Nat :=
  snapshot.argCount.toNat + snapshot.localCount.toNat + snapshot.stackSize.toNat

namespace FrameInlineBudget

/-- `FrameInlineBudget::new`. -/
def new (bytesLeft : Nat) : FrameInlineBudget where
  sitesLeft := 16
  instructionsLeft := 256
  slotsLeft := 128
  bytesLeft := min bytesLeft (64 * 1024)
  cancelled := false

def cancel (budget : FrameInlineBudget) : FrameInlineBudget := { budget with cancelled := true }

/-- The verifier's work a callee within the budget can need. -/
def workLimit (budget : FrameInlineBudget) : Nat :=
  let visitsPerBlock := satAdd budget.slotsLeft 1
  let workPerInstruction := satAdd (satMul budget.slotsLeft 6) 1
  satAdd budget.slotsLeft
    (satMul (satMul budget.instructionsLeft visitsPerBlock) workPerInstruction)

/-- The slot counts are 16 bits wide, so their sum is always there. -/
def verificationLimits (budget : FrameInlineBudget) (layout : SnapshotLayout)
    {snapshot : CompileSnapshot} (storage : SnapshotStorage snapshot) :
    FrameInlineBudget × Option VerifyLimits :=
  if budget.slotsLeft < frameSlots snapshot ∨ budget.bytesLeft < retainedBytes layout storage then
    (budget.cancel, none)
  else
    let limits := VerifyLimits.default
    (budget, some { limits with
      maxSnapshotBytes := min limits.maxSnapshotBytes budget.bytesLeft
      maxInstructions := min limits.maxInstructions budget.instructionsLeft
      maxMetadataBytes := min limits.maxMetadataBytes budget.bytesLeft
      maxWorkUnits := min limits.maxWorkUnits budget.workLimit })

def verify (table : OpcodeTable) (fuel : Nat) (budget : FrameInlineBudget)
    (layout : SnapshotLayout) {snapshot : CompileSnapshot} (storage : SnapshotStorage snapshot) :
    VerifyOutcome (FrameInlineBudget × Option VerifiedFunction) :=
  match budget.verificationLimits layout storage with
  | (budget, none) => .ok (budget, none)
  | (budget, some limits) =>
    match QuickJit.verify table fuel snapshot limits with
    | .ok body => .ok (budget, some body)
    | .error (.error _) => .ok (budget.cancel, none)
    | .error .panicked => .error .panicked
    | .error .outOfFuel => .error .outOfFuel

end FrameInlineBudget

/-! ## What a snapshot retains -/

theorem satAdd_satMul (a b c : Nat) :
    satAdd (min a usizeMax) (satMul b c) = min (a + b * c) usizeMax := by
  unfold satAdd satMul
  omega

/-- A sum of saturated additions is the saturated sum. -/
theorem foldl_saturates {α : Type} {f : Nat → α → Nat} {g : α → Nat}
    (hf : ∀ a x, f (min a usizeMax) x = min (a + g x) usizeMax) :
    ∀ (l : List α) (a : Nat), l.foldl f (min a usizeMax) = min (a + (l.map g).sum) usizeMax
  | [], a => rfl
  | x :: l, a => by
    rw [List.foldl_cons, hf, foldl_saturates hf, List.map_cons, List.sum_cons, Nat.add_assoc]

section Retained

variable (layout : SnapshotLayout) {snapshot : CompileSnapshot} (storage : SnapshotStorage snapshot)

theorem retainedBytes_eq : retainedBytes layout storage =
    min (layout.snapshotData + 16 + (storage.bytecode + (storage.constants * constantDescriptorSize +
        (storage.exceptionMap + (storage.sourceMap + (storage.osrPoints * layout.osrPoint +
          storage.deoptPoints * layout.deoptPoint))))) +
      (storage.liveSlots.map (· * layout.slotKind)).sum +
      (storage.frames.map fun c => c.1 * layout.slotKind + c.2 * layout.slotKind).sum)
      usizeMax := by
  unfold retainedBytes
  have hstart : satAdd layout.snapshotData (2 * 8) =
      min (layout.snapshotData + 16) usizeMax := rfl
  dsimp only
  rw [hstart, foldl_saturates (g := fun v => v.1 * v.2) fun a v => satAdd_satMul a v.1 v.2,
    foldl_saturates (g := fun c => c * layout.slotKind) fun a c => satAdd_satMul a c _,
    foldl_saturates (g := fun c => c.1 * layout.slotKind + c.2 * layout.slotKind) ?_]
  · simp only [List.map_cons, List.map_nil, List.sum_cons, List.sum_nil, Nat.mul_one, Nat.add_zero]
  · intro a c
    rw [satAdd_satMul, satAdd_satMul, Nat.add_assoc]

theorem sum_osrPoints_le {points : List OsrPoint} {capacities : List Nat}
    (h : List.Forall₂ (fun point capacity => point.liveSlots.length ≤ capacity) points capacities) :
    (points.map fun p => 4 + p.liveSlots.length).sum ≤
      points.length * layout.osrPoint + (capacities.map (· * layout.slotKind)).sum := by
  have hpoint := layout.osrPoint_le
  induction h with
  | nil => exact Nat.zero_le _
  | @cons point capacity points capacities hle _ ih =>
    have hslots := Nat.le_mul_of_pos_right capacity layout.slotKind_le
    simp only [List.map_cons, List.sum_cons, List.length_cons, Nat.add_mul, Nat.one_mul]
    omega

theorem sum_deoptPoints_le {points : List DeoptPoint} {capacities : List (Nat × Nat)}
    (h : List.Forall₂ (fun point (capacity : Nat × Nat) =>
      point.before.length ≤ capacity.1 ∧ point.after.length ≤ capacity.2) points capacities) :
    (points.map fun p => 4 + p.before.length + p.after.length).sum ≤
      points.length * layout.deoptPoint +
        (capacities.map fun c => c.1 * layout.slotKind + c.2 * layout.slotKind).sum := by
  have hpoint := layout.deoptPoint_le
  induction h with
  | nil => exact Nat.zero_le _
  | @cons point capacity points capacities hle _ ih =>
    have hbefore := Nat.le_mul_of_pos_right capacity.1 layout.slotKind_le
    have hafter := Nat.le_mul_of_pos_right capacity.2 layout.slotKind_le
    simp only [List.map_cons, List.sum_cons, List.length_cons, Nat.add_mul, Nat.one_mul]
    omega

/-- The bytes the verifier counts as the snapshot's are retained. -/
theorem snapshotBytes_le (hconstants : snapshot.constants.length = snapshot.constantCount) :
    snapshotBytes snapshot ≤ retainedBytes layout storage := by
  have hcount : snapshot.constantCount * constantDescriptorSize ≤
      storage.constants * constantDescriptorSize :=
    Nat.mul_le_mul_right _ (hconstants ▸ storage.constants_le)
  have hbytecode := storage.bytecode_le
  have hexceptions := storage.exceptionMap_le
  have hsources := storage.sourceMap_le
  rw [retainedBytes_eq]
  unfold snapshotBytes satAdd
  omega

/-- So are the bytes of its metadata. -/
theorem metadataBytes_le : metadataBytes snapshot ≤ retainedBytes layout storage := by
  have hosr := sum_osrPoints_le layout storage.liveSlots_le
  have hdeopt := sum_deoptPoints_le layout storage.frames_le
  have hosrPoints := Nat.mul_le_mul_right layout.osrPoint storage.osrPoints_le
  have hdeoptPoints := Nat.mul_le_mul_right layout.deoptPoint storage.deoptPoints_le
  have hexceptions := storage.exceptionMap_le
  have hsources := storage.sourceMap_le
  have hdata : 32 ≤ layout.snapshotData := le_trans (by decide) layout.snapshotData_le
  rw [retainedBytes_eq]
  unfold metadataBytes VerifierMetadata.byteLen satAdd
  omega

end Retained

/-! ## The work limit -/

theorem satMul_min_right (a b : Nat) : satMul a (min b usizeMax) = satMul a b := by
  unfold satMul
  rcases Nat.le_total b usizeMax with hb | hb
  · rw [Nat.min_eq_left hb]
  · rw [Nat.min_eq_right hb]
    rcases Nat.eq_zero_or_pos a with rfl | ha
    · rw [Nat.zero_mul, Nat.zero_mul]
    · have hmax : usizeMax ≤ a * usizeMax := Nat.le_mul_of_pos_left _ ha
      rw [Nat.min_eq_right hmax, Nat.min_eq_right (hmax.trans (Nat.mul_le_mul_left a hb))]

theorem satMul_satMul (a b c : Nat) : satMul (satMul a b) c = min (a * b * c) usizeMax := by
  have hcomm : satMul (satMul a b) c = satMul c (min (a * b) usizeMax) := by
    rw [satMul, satMul, satMul, Nat.mul_comm]
  rw [hcomm, satMul_min_right, satMul, Nat.mul_comm]

namespace FrameInlineBudget

/-- The limit saturates, but is otherwise the bound it is meant to be. -/
theorem workLimit_eq (budget : FrameInlineBudget) : budget.workLimit =
    min (budget.slotsLeft + budget.instructionsLeft * (budget.slotsLeft + 1) *
      (6 * budget.slotsLeft + 1)) usizeMax := by
  unfold workLimit
  have hvisits : satAdd budget.slotsLeft 1 = min (budget.slotsLeft + 1) usizeMax := rfl
  have hwork : satAdd (satMul budget.slotsLeft 6) 1 =
      min (6 * budget.slotsLeft + 1) usizeMax := by
    unfold satAdd satMul
    omega
  dsimp only
  rw [hvisits, hwork, satMul_min_right, satMul_min_right, satMul_satMul]
  unfold satAdd
  omega

variable {table : OpcodeTable} {fuel : Nat} {snapshot : CompileSnapshot} {f : VerifiedFunction}
  {layout : SnapshotLayout} {storage : SnapshotStorage snapshot} {budget : FrameInlineBudget}

/-- The limits of a callee within the budget. -/
def limits (budget : FrameInlineBudget) : VerifyLimits where
  maxSnapshotBytes := min VerifyLimits.default.maxSnapshotBytes budget.bytesLeft
  maxInstructions := min VerifyLimits.default.maxInstructions budget.instructionsLeft
  maxBasicBlocks := VerifyLimits.default.maxBasicBlocks
  maxMetadataBytes := min VerifyLimits.default.maxMetadataBytes budget.bytesLeft
  maxWorkUnits := min VerifyLimits.default.maxWorkUnits budget.workLimit

theorem verificationLimits_eq (hslots : frameSlots snapshot ≤ budget.slotsLeft)
    (hbytes : retainedBytes layout storage ≤ budget.bytesLeft) :
    budget.verificationLimits layout storage = (budget, some budget.limits) :=
  if_neg (not_or.mpr ⟨Nat.not_lt.mpr hslots, Nat.not_lt.mpr hbytes⟩)

/-- The verifier's bound, computed from the function, is within the budget's,
computed from what is left. -/
theorem bound_le (hinstructions : f.instructions.length ≤ budget.instructionsLeft)
    (hslots : frameSlots snapshot ≤ budget.slotsLeft) (work : Nat) :
    snapshot.localCount.toNat + f.instructions.length * (snapshot.localCount.toNat + 1) *
        (1 + 6 * (proveContext snapshot f.instructions f.cfg work).cells) ≤
      budget.slotsLeft + budget.instructionsLeft * (budget.slotsLeft + 1) *
        (6 * budget.slotsLeft + 1) := by
  have hcells : (proveContext snapshot f.instructions f.cfg work).cells =
      snapshot.localCount.toNat + snapshot.stackSize.toNat := rfl
  unfold frameSlots at hslots
  have hvisits := Nat.mul_le_mul hinstructions
    (show snapshot.localCount.toNat + 1 ≤ budget.slotsLeft + 1 by omega)
  refine Nat.add_le_add (by omega) (Nat.mul_le_mul hvisits ?_)
  rw [hcells]
  omega

/-- What the verifier charged under its default limits is within the budget's. -/
theorem spent_le {proof : StateProof} {p : Proving}
    (hver : Verification table fuel snapshot VerifyLimits.default f proof)
    (hplain : Plain f.instructions)
    (hinstructions : f.instructions.length ≤ budget.instructionsLeft)
    (hslots : frameSlots snapshot ≤ budget.slotsLeft)
    (hp : proveEntries fuel (proveContext snapshot f.instructions f.cfg
      VerifyLimits.default.maxWorkUnits) = .ok p) :
    p.spent ≤ budget.limits.maxWorkUnits := by
  obtain ⟨_, -, -, -, hused⟩ := proveEntries_affords (hver.plainGraph hplain) hp
  have hbound := hused.trans (bound_le hinstructions hslots _)
  have hdefault := (proveEntries_limited (proveContext snapshot f.instructions f.cfg 0) fuel
    VerifyLimits.default.maxWorkUnits p hp).2.1
  refine le_min (by simpa using hdefault) ?_
  rw [workLimit_eq]
  exact min_le_min_right _ hbound

theorem verify_limits (haccepted : QuickJit.verify table fuel snapshot VerifyLimits.default = .ok f)
    (hplain : Plain f.instructions)
    (hconstants : snapshot.constants.length = snapshot.constantCount)
    (hinstructions : f.instructions.length ≤ budget.instructionsLeft)
    (hslots : frameSlots snapshot ≤ budget.slotsLeft)
    (hbytes : retainedBytes layout storage ≤ budget.bytesLeft) :
    QuickJit.verify table fuel snapshot budget.limits = .ok f := by
  obtain ⟨proof, hver⟩ := verify_eq_ok haccepted
  obtain ⟨hsnapshot, hmetadata, hcount⟩ := verify_sizes haccepted
  refine verify_within haccepted (le_min hsnapshot ?_) (le_min hmetadata ?_)
    (le_min hcount hinstructions) le_rfl fun p hp => spent_le hver hplain hinstructions hslots hp
  · exact (snapshotBytes_le layout storage hconstants).trans hbytes
  · exact (metadataBytes_le layout storage).trans hbytes

/-- A callee the verifier accepts under its default limits, with no `catch`,
`gosub` or `ret` and within what is left, is accepted within the budget: no
block has more turns than there are locals and one more, and the work stays
within the bound the limit is computed from. -/
theorem verify_sufficient (table : OpcodeTable) (fuel : Nat) (snapshot : CompileSnapshot)
    (f : VerifiedFunction) (layout : SnapshotLayout) (storage : SnapshotStorage snapshot)
    (budget : FrameInlineBudget)
    (haccepted : QuickJit.verify table fuel snapshot VerifyLimits.default = .ok f)
    (hplain : Plain f.instructions)
    (hconstants : snapshot.constants.length = snapshot.constantCount)
    (hinstructions : f.instructions.length ≤ budget.instructionsLeft)
    (hslots : frameSlots snapshot ≤ budget.slotsLeft)
    (hbytes : retainedBytes layout storage ≤ budget.bytesLeft) :
    budget.verify table fuel layout storage = .ok (budget, some f) ∧
    ∃ limits p r, budget.verificationLimits layout storage = (budget, some limits) ∧
      charge (proveContext snapshot f.instructions f.cfg limits.maxWorkUnits) 0
        snapshot.localCount.toNat (initialProving snapshot) = .ok p ∧
      Outcome.iterate (proveStep (proveContext snapshot f.instructions f.cfg
        limits.maxWorkUnits)) fuel p = .ok r ∧
      (∀ pc, (proveTurns (proveContext snapshot f.instructions f.cfg limits.maxWorkUnits)
        fuel p).count pc ≤ snapshot.localCount.toNat + 1) ∧
      r.used ≤ budget.slotsLeft + budget.instructionsLeft * (budget.slotsLeft + 1) *
        (6 * budget.slotsLeft + 1) := by
  have hlimits : budget.verificationLimits layout storage = (budget, some budget.limits) :=
    verificationLimits_eq hslots hbytes
  have hverify := verify_limits haccepted hplain hconstants hinstructions hslots hbytes
  refine ⟨?_, budget.limits, ?_⟩
  · rw [FrameInlineBudget.verify, hlimits]
    dsimp only
    rw [hverify]
  · obtain ⟨proof, hver⟩ := verify_eq_ok hverify
    obtain ⟨r, hr, -⟩ := prove_eq_ok hver.instructions_ne hver.proved
    obtain ⟨p, hcharge, hrun, hturns, hused⟩ := proveEntries_affords (hver.plainGraph hplain) hr
    exact ⟨p, r, hlimits, hcharge, hrun, hturns,
      hused.trans (bound_le hinstructions hslots _)⟩

/-- `if (true) x = 0; return x` as a callee, with the sizes of a 64-bit build. -/
theorem joinFunction_verified_within :
    (FrameInlineBudget.new 65536).verify sampleTable 10 sampleLayout
        (SnapshotStorage.exact (sampleSnapshot joinBytecode 0 1 1)) =
      .ok (FrameInlineBudget.new 65536, some joinFunction) :=
  (verify_sufficient sampleTable 10 (sampleSnapshot joinBytecode 0 1 1) joinFunction sampleLayout
    (SnapshotStorage.exact _) (FrameInlineBudget.new 65536) verify_joinBytecode
    (by decide +kernel) rfl (by decide +kernel) (by decide +kernel) (by decide +kernel)).1

end FrameInlineBudget

end QuickJit
