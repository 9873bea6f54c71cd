import Mathlib
import QuickJit.Bytecode.Snapshot

/-
  Compiled artifacts and their keys (`code_cache/artifact.rs`).

  An artifact is compiler output for one function generation and tier. Of its
  contents the runtime reads the key, the dependencies, the feedback epoch of
  optimized code and the number of bytes it is charged for; the charge is a sum
  over the lengths of its parts, with checked arithmetic. What
  `publish_relocatable` does depends on the platform's memory, so whether it
  succeeds is a field.

  Correspondence (Rust ↔ Lean):
    `ArtifactKey` with its derived order   ↔ `ArtifactKey`, `ArtifactKey.fields`
    `ArtifactVersionIdentity::new`         ↔ `versionFingerprint`
    `charge_bytes`, `metadata_bytes`       ↔ `chargeBytes`, `metadataBytes`
    `core::mem::size_of::<T>()`            ↔ the fields of `TypeSizes`
-/

namespace QuickJit

inductive Tier where
  | baseline
  | optimizing
  deriving DecidableEq, Repr

/-- The position of a tier in its derived order. -/
def Tier.rank : Tier → Nat
  | .baseline => 0
  | .optimizing => 1

structure FunctionKey where
  id : Nat
  generation : Nat
  deriving Repr

namespace FunctionKey

/-- What the derived order compares. -/
def fields (key : FunctionKey) : List Nat := [key.id, key.generation]

theorem fields_injective : Function.Injective fields := by
  rintro ⟨id, generation⟩ ⟨id', generation'⟩ h
  simpa [fields] using h

instance : LinearOrder FunctionKey := LinearOrder.lift' fields fields_injective

end FunctionKey

/-- Full compatibility identity of one compiled artifact. -/
structure ArtifactKey where
  runtimeId : Nat
  functionId : Nat
  generation : Nat
  tier : Tier
  targetIsa : Nat
  cpuFeatures : Nat
  abiFingerprint : Nat
  sourceRevision : Nat
  opcodeFingerprint : Nat
  configFingerprint : Nat
  specializationFingerprint : BitVec 64
  deriving Repr

namespace ArtifactKey

/-- What the derived order compares. -/
def fields (key : ArtifactKey) : List Nat :=
  [key.runtimeId, key.functionId, key.generation, key.tier.rank, key.targetIsa, key.cpuFeatures,
    key.abiFingerprint, key.sourceRevision, key.opcodeFingerprint, key.configFingerprint,
    key.specializationFingerprint.toNat]

theorem fields_injective : Function.Injective fields := by
  rintro ⟨_, _, _, tier, _, _, _, _, _, _, _⟩ ⟨_, _, _, tier', _, _, _, _, _, _, _⟩ h
  simp only [fields, List.cons.injEq] at h
  obtain ⟨rfl, rfl, rfl, htier, rfl, rfl, rfl, rfl, rfl, rfl, hfingerprint, -⟩ := h
  cases BitVec.eq_of_toNat_eq hfingerprint
  cases tier <;> cases tier' <;> first | rfl | cases htier

instance : LinearOrder ArtifactKey := LinearOrder.lift' fields fields_injective

instance (key : ArtifactKey) (keys : List ArtifactKey) : Decidable (key ∈ keys) := inferInstance

/-- The function generation an artifact is for. -/
def function (key : ArtifactKey) : FunctionKey := ⟨key.functionId, key.generation⟩

/-- `with_tier`; a baseline is never specialized. -/
def withTier (key : ArtifactKey) (tier : Tier) : ArtifactKey :=
  match tier with
  | .baseline => { key with tier := .baseline, specializationFingerprint := 0 }
  | .optimizing => { key with tier := .optimizing }

@[simp] theorem withTier_tier (key : ArtifactKey) (tier : Tier) : (key.withTier tier).tier = tier := by
  cases tier <;> rfl

end ArtifactKey

/-- The fingerprint of `ArtifactVersionIdentity::new`. -/
def versionFingerprint (primary call : BitVec 64) : BitVec 64 :=
  let substitute : BitVec 64 := 0x9e3779b97f4a7c15
  let primary := if primary = 0 then substitute else primary
  let call := if call = 0 then substitute else call
  let combined := (primary ^^^ call.rotateLeft 29) * 0x100000001b3
  if combined = 0 then substitute else combined

/-- `usize::checked_add`. -/
def checkedAdd (a b : Nat) : Option Nat := if a + b ≤ usizeMax then some (a + b) else none

/-- `usize::checked_sub`. -/
def checkedSub (a b : Nat) : Option Nat := if b ≤ a then some (a - b) else none

theorem checkedAdd_eq_some {a b c : Nat} :
    checkedAdd a b = some c ↔ a + b ≤ usizeMax ∧ a + b = c := by
  simp [checkedAdd]

theorem checkedSub_eq_some {a b c : Nat} : checkedSub a b = some c ↔ b ≤ a ∧ a - b = c := by
  simp [checkedSub]

/-- The sizes the compiler gives the types an artifact is charged for. -/
class TypeSizes where
  relocation : Nat
  unwindMetadata : Nat
  stackMap : Nat
  frameState : Nat
  artifactDependency : Nat
  optimizedArtifactMetadata : Nat
  deoptSite : Nat
  materialization : Nat

/-- The metadata of optimized code: its feedback epoch and the number of
materializations of each deopt site. -/
structure OptimizedArtifactMetadata where
  feedbackEpoch : Nat
  deoptSites : List Nat
  deriving DecidableEq, Repr

structure CompiledArtifact where
  key : ArtifactKey
  /-- The number of code bytes. -/
  code : Nat
  /-- The length of each relocation's symbol, where it has one. -/
  relocations : List (Option Nat)
  /-- The length of the unwind encoding. -/
  unwindMetadata : Option Nat
  /-- The number of live slots of each stack map. -/
  stackMaps : List Nat
  /-- The number of slots of each frame state. -/
  frameStates : List Nat
  dependencies : List FunctionKey
  /-- The accumulated benefit score. -/
  benefit : Nat
  optimized : Option OptimizedArtifactMetadata
  /-- The bytes the retained callee body holds. -/
  inlineSnapshot : Option Nat
  /-- Whether `publish_relocatable` succeeds. -/
  publishes : Bool
  deriving DecidableEq, Repr

namespace CompiledArtifact

/-- Add a list of counts of equally sized elements. -/
def addSlices (size total : Nat) (counts : List Nat) : Option Nat :=
  counts.foldlM (fun total count => (checkedMul count size).bind (checkedAdd total)) total
where
  /-- `usize::checked_mul`. -/
  checkedMul (a b : Nat) : Option Nat := if a * b ≤ usizeMax then some (a * b) else none

/-- `charge_bytes`. -/
def chargeBytes [sizes : TypeSizes] (artifact : CompiledArtifact) : Option Nat := do
  let total := artifact.code
  let total ← checkedAdd total (artifact.inlineSnapshot.getD 0)
  let total ← addSlices sizes.relocation total [artifact.relocations.length]
  let total ← artifact.relocations.foldlM (fun total symbol => checkedAdd total (symbol.getD 0)) total
  let total ← match artifact.unwindMetadata with
    | some encoding => (checkedAdd total sizes.unwindMetadata).bind (checkedAdd · encoding)
    | none => some total
  let total ← addSlices sizes.stackMap total [artifact.stackMaps.length]
  let total ← addSlices 2 total artifact.stackMaps
  let total ← addSlices sizes.frameState total [artifact.frameStates.length]
  let total ← addSlices 2 total artifact.frameStates
  let total ← addSlices sizes.artifactDependency total [artifact.dependencies.length]
  match artifact.optimized with
  | some optimized => do
    let total ← checkedAdd total sizes.optimizedArtifactMetadata
    let total ← addSlices sizes.deoptSite total [optimized.deoptSites.length]
    addSlices sizes.materialization total optimized.deoptSites
  | none => some total

/-- `code_bytes`. -/
def codeBytes (artifact : CompiledArtifact) : Nat := artifact.code

/-- `metadata_bytes`. -/
def metadataBytes [TypeSizes] (artifact : CompiledArtifact) : Option Nat :=
  artifact.chargeBytes.bind (checkedSub · artifact.codeBytes)

/-- `record_benefit`. -/
def recordBenefit (artifact : CompiledArtifact) (score : Nat) : CompiledArtifact :=
  { artifact with benefit := satAdd artifact.benefit score }

end CompiledArtifact

end QuickJit
