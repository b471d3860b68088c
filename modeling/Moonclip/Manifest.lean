import Moonclip.Basic
import Mathlib.Data.Finset.Basic
import Mathlib.Data.List.Dedup
import Mathlib.Data.List.Sort

/-! The manifest: what each snapshot stores, and the questions saves and
retention ask of the list. -/
namespace Moonclip

/-- How a tensor is stored in a snapshot. `aliased` is the source's `Alias`:
identical to another tensor of the same snapshot, named by `aliasOf`. -/
inductive TensorStorage where
  | full
  | deltaXor
  | skipped
  | aliased
deriving DecidableEq, Repr

/-- A finite `f32`, by its bit pattern. JSON has no way to write another. -/
abbrev FiniteF32 := { bits : UInt32 // bits &&& 0x7F800000 ≠ 0x7F800000 }

/-- Metadata for a single tensor within a rank's checkpoint. -/
structure TensorEntry where
  name : String
  shape : List Nat
  dtype : String
  originalDtype : Option String
  quantScale : Option FiniteF32
  storage : TensorStorage
  aliasOf : Option String
  filename : Option Path
  offset : Nat
  compressedSize : Nat
  rawSize : Nat
  hashRaw : String
  hashCompressed : Option String
  shuffled : Bool
deriving DecidableEq, Repr

/-- All tensor entries for a single rank in a snapshot. -/
structure RankEntry where
  rank : Nat
  tensors : List TensorEntry
  packFile : Option Path
  totalCompressed : Nat
  totalRaw : Nat
  skippedCount : Nat
  deltaCount : Nat
  fullCount : Nat
deriving DecidableEq, Repr

inductive CompressionAlgo where
  | none
  | zstd (level : Int)
deriving DecidableEq, Repr

abbrev RankMap := Std.ExtTreeMap Nat RankEntry
abbrev Metadata := Std.ExtTreeMap String String

/-- A single save event across all ranks at a given step. -/
structure Snapshot where
  id : Uuid
  step : Nat
  createdAt : Nat
  ranks : RankMap
  baseSnapshotId : Option Uuid
  metadata : Metadata
  compression : CompressionAlgo
  finalized : Bool
  pinned : Bool
deriving DecidableEq

structure LineageConfig where
  rollbackIntervalSteps : Nat
  maxRollbackSnapshots : Nat
deriving DecidableEq, Repr

def LineageConfig.default : LineageConfig := ⟨10000, 3⟩

structure RetentionPolicy where
  maxFullSnapshots : Nat
  maxDeltasPerFull : Nat
  fullSnapshotEverySteps : Nat
  maxTotalSnapshots : Option Nat
deriving DecidableEq, Repr

def RetentionPolicy.default : RetentionPolicy := ⟨5, 10, 5000, none⟩

/-- Effective total snapshot cap. The limits are `usize`, multiplied as a
release build does, modulo 2^64. -/
def RetentionPolicy.effectiveTotalCap (r : RetentionPolicy) : Nat :=
  r.maxTotalSnapshots.getD (r.maxFullSnapshots * ((1 + r.maxDeltasPerFull) % 2 ^ 64) % 2 ^ 64)

structure Manifest where
  formatVersion : Nat
  worldSize : Nat
  snapshots : List Snapshot
  retention : RetentionPolicy
  lineage : LineageConfig
  /-- Snapshots whose ranks are already in their own file in storage. -/
  ranksWritten : Finset Uuid
deriving DecidableEq

def Manifest.default : Manifest := ⟨2, 1, [], .default, .default, ∅⟩

namespace Snapshot

/-- A finalized snapshot that is a delta of nothing. -/
def isFull (s : Snapshot) : Bool := s.baseSnapshotId.isNone && s.finalized

/-- The snapshot without its pin: what a save wrote. -/
def unpinned (s : Snapshot) : Snapshot := { s with pinned := false }

/-- Whose files a load of this snapshot cannot do without: its base's, or its
own when it is a delta of nothing. -/
def carrier (s : Snapshot) : Uuid := s.baseSnapshotId.getD s.id

/-- What two snapshots share that differ at most in their pin. -/
structure Alike (s t : Snapshot) : Prop where
  id : s.id = t.id
  step : s.step = t.step
  ranks : s.ranks = t.ranks
  base : s.baseSnapshotId = t.baseSnapshotId
  compression : s.compression = t.compression
  finalized : s.finalized = t.finalized

theorem alike_of_unpinned {s t : Snapshot} (same : s.unpinned = t.unpinned) : Alike s t := by
  simp only [unpinned, mk.injEq] at same
  obtain ⟨id, step, _, ranks, base, _, compression, finalized, _⟩ := same
  exact ⟨id, step, ranks, base, compression, finalized⟩

theorem unpinned_of {s : Snapshot} (free : s.pinned = false) : s.unpinned = s := by
  cases s
  simp_all [unpinned]

theorem isFull_iff (s : Snapshot) :
    s.isFull = true ↔ s.baseSnapshotId = none ∧ s.finalized = true := by
  simp [isFull]

theorem carrier_of_isFull {s : Snapshot} (full : s.isFull = true) : s.carrier = s.id := by
  simp [carrier, (s.isFull_iff.mp full).1]

end Snapshot

namespace Manifest

/-- Find the last full (non-delta) snapshot. -/
def lastFullSnapshot (m : Manifest) : Option Snapshot :=
  m.snapshots.reverse.find? Snapshot.isFull

/-- Find a snapshot by ID. -/
def findSnapshot (m : Manifest) (id : Uuid) : Option Snapshot :=
  m.snapshots.find? (·.id == id)

/-- Count consecutive deltas at the tail. -/
def pendingDeltaCount (m : Manifest) : Nat :=
  (m.snapshots.reverse.takeWhile (·.baseSnapshotId.isSome)).length

/-- Whether a full snapshot should be forced at the given step. -/
def shouldForceFull (m : Manifest) (step : Nat) : Bool :=
  if m.snapshots.isEmpty then true
  else if m.retention.effectiveTotalCap ≤ 1 then true
  else match m.lastFullSnapshot with
    | none => true
    | some lastFull =>
      if step - lastFull.step ≥ m.retention.fullSnapshotEverySteps then true
      else decide (m.pendingDeltaCount ≥ m.retention.maxDeltasPerFull)

/-- Get IDs of snapshots marked as rollback-safe: the newest
`maxRollbackSnapshots` fulls that fall on the interval. -/
def rollbackSnapshotIds (m : Manifest) : List Uuid :=
  if m.lineage.rollbackIntervalSteps = 0 ∨ m.lineage.maxRollbackSnapshots = 0 then []
  else
    (((m.snapshots.reverse.filter fun s =>
      s.isFull && s.step % m.lineage.rollbackIntervalSteps == 0).take
        m.lineage.maxRollbackSnapshots).map (·.id)).reverse

/-- Every snapshot retention must leave alone: pinned, rollback-protected, and
the base a pinned delta is computed against. -/
def protectedSnapshotIds (m : Manifest) : List Uuid :=
  let pins := (m.snapshots.filter (·.pinned)).flatMap fun s => s.id :: s.baseSnapshotId.toList
  ((m.rollbackSnapshotIds ++ pins).insertionSort (· ≤ ·)).dedup

end Manifest
end Moonclip
