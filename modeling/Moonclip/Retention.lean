import Moonclip.Manifest
import Moonclip.Library.Eviction
import Mathlib.Data.List.Sublists

/-! Retention: cap the fulls, then cap the total. Both passes are the eviction
loop of the library over the snapshot list; what they may take is decided once,
before the first pass. -/
namespace Moonclip
open Library.Eviction

/-- Bring the pin flags in line with `pins.json`, which decides when it exists.
Only finalized snapshots are touched. -/
def Manifest.syncPins (steps : Option (List Nat)) (m : Manifest) : Manifest :=
  match steps with
  | none => m
  | some steps =>
    { m with snapshots := m.snapshots.map fun s =>
        if s.finalized then { s with pinned := steps.contains s.step } else s }

namespace Retention

/-- A full snapshot and all its dependent deltas. -/
def groupIds (snapshots : List Snapshot) (fullId : Uuid) : List Uuid :=
  (snapshots.filter fun s => s.id == fullId || s.baseSnapshotId == some fullId).map (·.id)

def removableFull (keep : List Uuid) (s : Snapshot) : Bool := s.isFull && !keep.contains s.id

/-- Removable: not the newest, not protected, and nothing is left pointing at it. -/
def removable (keep : List Uuid) (snapshots : List Snapshot) (newest : Uuid) (s : Snapshot) : Bool :=
  s.id != newest && !keep.contains s.id &&
    (s.baseSnapshotId.isSome || !snapshots.any (·.baseSnapshotId == some s.id))

/-- Pass 1: the oldest removable full goes, with its deltas. -/
def capFulls (keep : List Uuid) (maxFull : Nat) : Policy Snapshot where
  exceeds snapshots := decide (maxFull < (snapshots.filter Snapshot.isFull).length)
  choose snapshots :=
    (snapshots.find? (removableFull keep)).map fun full t =>
      (groupIds snapshots full.id).contains t.id
  progress := by
    intro snapshots victim chosen
    simp only [Option.map_eq_some_iff] at chosen
    obtain ⟨full, found, rfl⟩ := chosen
    have present := List.mem_of_find?_eq_some found
    exact ⟨full, present, by simpa [groupIds] using ⟨full, ⟨present, .inl rfl⟩, rfl⟩⟩

/-- The newest finalized snapshot: the one the save that runs retention pushed. -/
def newest? (snapshots : List Snapshot) : Option Snapshot :=
  (snapshots.filter (·.finalized)).getLast?

/-- Pass 2: the oldest removable snapshot goes, one at a time. -/
def capTotal (keep : List Uuid) (maxTotal : Nat) : Policy Snapshot where
  exceeds snapshots := decide (maxTotal < (snapshots.filter (·.finalized)).length)
  choose snapshots :=
    (newest? snapshots).bind fun newest =>
      ((snapshots.filter (·.finalized)).find? (removable keep snapshots newest.id)).map
        fun candidate t => [candidate.id].contains t.id
  progress := by
    intro snapshots victim chosen
    simp only [Option.bind_eq_some_iff, Option.map_eq_some_iff] at chosen
    obtain ⟨newest, _, candidate, found, rfl⟩ := chosen
    exact ⟨candidate, List.mem_of_mem_filter (List.mem_of_find?_eq_some found), by simp⟩

/-- Both passes: the manifest left, and the snapshots evicted in order. -/
def retain (m : Manifest) : Manifest × List Snapshot :=
  let keep := m.protectedSnapshotIds
  let first := (capFulls keep m.retention.maxFullSnapshots).evict m.snapshots
  let second := (capTotal keep m.retention.effectiveTotalCap).evict first.1
  ({ m with snapshots := second.1 }, first.2 ++ second.2)

end Retention
end Moonclip
