import Moonclip.Storage
import Mathlib.Data.Finset.Image

/-! How packs and the manifest lie in storage: a pack carries its own
description, the index names each finalized snapshot's own ranks file, and the
file goes down before the index that names it. -/
namespace Moonclip
open Library.Codec Library.Effect Library.Files

/-- What one rank wrote, and the snapshot it belongs to. -/
structure PackDescriptor where
  snapshotId : Uuid
  step : Nat
  createdAt : Nat
  baseSnapshotId : Option Uuid
  metadata : Metadata
  compression : CompressionAlgo
  worldSize : Nat
  rank : RankEntry
deriving DecidableEq

/-- A snapshot as the index holds it: with its ranks, or with the file they are in. -/
structure Head where
  id : Uuid
  step : Nat
  createdAt : Nat
  ranks : Option RankMap
  ranksIn : Option Path
  baseSnapshotId : Option Uuid
  metadata : Metadata
  compression : CompressionAlgo
  finalized : Bool
  pinned : Bool
deriving DecidableEq

/-- `manifest.json`. -/
structure Index where
  formatVersion : Nat
  worldSize : Nat
  snapshots : List Head
  retention : RetentionPolicy
  lineage : LineageConfig
deriving DecidableEq

/-- A snapshot's own file, which names the snapshot it belongs to. -/
structure RanksFile where
  snapshotId : Uuid
  ranks : RankMap
deriving DecidableEq

/-- The formats `serde_json` derives for what the store writes. -/
class SerdeJson where
  index : Serializer Index
  ranks : Serializer RanksFile
  descriptor : Serializer PackDescriptor
  pins : Serializer (List Nat)

class LawfulSerdeJson [SerdeJson] : Prop where
  index : SerdeJson.index.Lawful
  ranks : SerdeJson.ranks.Lawful
  descriptor : SerdeJson.descriptor.Lawful
  pins : SerdeJson.pins.Lawful

namespace Pack

/-- `MOONPACK`. -/
def magic : Bytes := [0x4D, 0x4F, 0x4F, 0x4E, 0x50, 0x41, 0x43, 0x4B]

def version : Nat := 1

/-- magic(8) + version(4) + reserved(4) + descriptor offset(8) + length(8). -/
def headerLen : Nat := 32

/-- The fixed-size header that points at the descriptor. -/
def encodeHeader (descriptorOffset descriptorLen : Nat) : Bytes :=
  magic ++ leBytes 4 version ++ leBytes 4 0 ++ leBytes 8 descriptorOffset ++ leBytes 8 descriptorLen

/-- Where the descriptor lives, or `none` when this is not a pack of ours. -/
def decodeHeader (bytes : Bytes) : Option (Nat × Nat) :=
  if bytes.length < headerLen ∨ bytes.take 8 ≠ magic then none
  else if ofLeBytes ((bytes.drop 8).take 4) ≠ version then none
  else some (ofLeBytes ((bytes.drop 16).take 8), ofLeBytes ((bytes.drop 24).take 8))

variable {offset len : Nat}

@[simp] theorem length_encodeHeader : (encodeHeader offset len).length = headerLen := by
  simp [encodeHeader, magic, headerLen]

theorem decodeHeader_encodeHeader (offsetFits : offset < 2 ^ 64) (lenFits : len < 2 ^ 64) :
    decodeHeader (encodeHeader offset len) = some (offset, len) := by
  have versionAt : ((encodeHeader offset len).drop 8).take 4 = leBytes 4 version := by
    simp [encodeHeader, magic]
  have offsetAt : ((encodeHeader offset len).drop 16).take 8 = leBytes 8 offset := by
    have before : (magic ++ leBytes 4 version ++ leBytes 4 0).length = 16 := by simp [magic]
    rw [encodeHeader, List.append_assoc, List.drop_left' before, List.take_left' (by simp)]
  have lenAt : ((encodeHeader offset len).drop 24).take 8 = leBytes 8 len := by
    have before : (magic ++ leBytes 4 version ++ leBytes 4 0 ++ leBytes 8 offset).length = 24 := by
      simp [magic]
    rw [encodeHeader, List.drop_left' before, List.take_of_length_le (by simp)]
  have ours : (encodeHeader offset len).take 8 = magic := by
    simp [encodeHeader, magic]
  have stored : ofLeBytes (leBytes 4 version) = version := ofLeBytes_leBytes (by decide)
  rw [decodeHeader, versionAt, offsetAt, lenAt, ours, stored, ofLeBytes_leBytes offsetFits,
    ofLeBytes_leBytes lenFits]
  simp

end Pack

namespace ManifestIo
variable [SerdeJson]

/-- The first version with snapshots out of line. -/
def formatVersion : Nat := 3

/-- Whether a snapshot's ranks go in a file of their own. -/
def outOfLine (s : Snapshot) : Bool := s.finalized && !s.ranks.isEmpty

def headOf (written : Finset Uuid) (s : Snapshot) : Head where
  id := s.id
  step := s.step
  createdAt := s.createdAt
  ranks := if s.id ∈ written then none else some s.ranks
  ranksIn := if s.id ∈ written then some (ranksPath s.id) else none
  baseSnapshotId := s.baseSnapshotId
  metadata := s.metadata
  compression := s.compression
  finalized := s.finalized
  pinned := s.pinned

def indexOf (m : Manifest) : Index where
  formatVersion := formatVersion
  worldSize := m.worldSize
  snapshots := m.snapshots.map (headOf m.ranksWritten)
  retention := m.retention
  lineage := m.lineage

/-- The finalized snapshots whose ranks are not in a file yet. -/
def unwritten (m : Manifest) : List Uuid :=
  (m.snapshots.filter fun s => outOfLine s && decide (s.id ∉ m.ranksWritten)).map (·.id)

/-- What is on disk once the ranks files are, less what is listed no more. -/
def recordWritten (ids : List Uuid) (m : Manifest) : Manifest :=
  { m with ranksWritten := (m.ranksWritten ∪ ids.toFinset).filter (· ∈ m.snapshots.map (·.id)) }

def writeRanks (s : Snapshot) : Act Unit := do
  let body ← returning ((SerdeJson.ranks.toVec ⟨s.id, s.ranks⟩).mapError .serialization)
  Storage.put (ranksPath s.id) body

/-- Write the file of every finalized snapshot that has none yet, then the index. -/
def persist : Act Unit := do
  let m := (← get).manifest
  let ids := unwritten m
  (m.snapshots.filter fun s => ids.contains s.id).forM writeRanks
  modify fun w => { w with manifest := recordWritten ids w.manifest }
  let index := indexOf (← get).manifest
  let json ← returning ((SerdeJson.index.toVec index).mapError .serialization)
  Storage.put .manifestJson json

def readRanks (files : Files) (path : Path) (id : Uuid) : Option RankMap := do
  let data ← (Storage.get files path).toOption
  let read ← (SerdeJson.ranks.fromSlice (trimZeros data)).toOption
  if read.snapshotId = id then some read.ranks else none

/-- The ranks the manifest in memory lends to a re-read. -/
def heldRanks (previous : Manifest) : Uuid → Option RankMap :=
  previous.snapshots.foldl (fun held s =>
    if s.id ∈ previous.ranksWritten then Function.update held s.id (some s.ranks) else held)
    fun _ => none

omit [SerdeJson] in
/-- What memory lends is ranks it has recorded as written. -/
theorem heldRanks_eq_some {m : Manifest} {id : Uuid} {ranks : RankMap} (lent : heldRanks m id = some ranks) :
    ∃ s ∈ m.snapshots, s.id = id ∧ s.id ∈ m.ranksWritten ∧ s.ranks = ranks := by
  unfold heldRanks at lent
  suffices go : ∀ (l : List Snapshot) (held : Uuid → Option RankMap),
      (l.foldl (fun (held : Uuid → Option RankMap) s =>
          if s.id ∈ m.ranksWritten then Function.update held s.id (some s.ranks) else held) held)
            id = some ranks →
        held id = some ranks ∨ ∃ s ∈ l, s.id = id ∧ s.id ∈ m.ranksWritten ∧ s.ranks = ranks by
    exact (go _ _ lent).resolve_left (by simp)
  intro l
  induction l with
  | nil => exact fun held found => .inl found
  | cons s rest ih =>
    intro held found
    rcases ih _ found with before | ⟨t, there, known⟩
    · dsimp only at before
      split at before
      · rename_i written
        by_cases same : id = s.id
        · subst same
          rw [Function.update_self] at before
          exact .inr ⟨s, by simp, rfl, written, Option.some.inj before⟩
        · rw [Function.update_of_ne same] at before
          exact .inl before
      · exact .inl before
    · exact .inr ⟨t, by simp [there], known⟩

/-- What the heads of an index are read as: the snapshots, the ones whose ranks
came from their file, and the ones whose file is missing or unreadable. -/
structure ReadHeads where
  snapshots : List Snapshot
  ranksWritten : Finset Uuid
  unreadable : List Uuid

def snapshotOf (h : Head) (ranks : RankMap) : Snapshot where
  id := h.id
  step := h.step
  createdAt := h.createdAt
  ranks := ranks
  baseSnapshotId := h.baseSnapshotId
  metadata := h.metadata
  compression := h.compression
  finalized := h.finalized
  pinned := h.pinned

def readHeads (files : Files) : (Uuid → Option RankMap) → List Head → ReadHeads
  | _, [] => ⟨[], ∅, []⟩
  | held, h :: rest =>
    match h.ranks, h.ranksIn with
    | some inline, _ =>
      let others := readHeads files held rest
      { others with snapshots := snapshotOf h inline :: others.snapshots }
    | none, some path =>
      let others := readHeads files (Function.update held h.id none) rest
      match (held h.id).or (readRanks files path h.id) with
      | some ranks =>
        ⟨snapshotOf h ranks :: others.snapshots, insert h.id others.ranksWritten, others.unreadable⟩
      | none => { others with unreadable := h.id :: others.unreadable }
    | none, none =>
      let others := readHeads files held rest
      { others with snapshots := snapshotOf h ∅ :: others.snapshots }

/-- Read the manifest in storage, or `none` when there is none. A snapshot whose
file cannot be read is left out, and so is any delta taken against it. -/
def load (files : Files) (previous : Option Manifest) :
    Except MoonclipError (Option Manifest) :=
  match files.find? .manifestJson with
  | none => .ok none
  | some data => do
    let index ← (SerdeJson.index.fromSlice (trimZeros data)).mapError .serialization
    let held := match previous with
      | some m => heldRanks m
      | none => fun _ => none
    let read := readHeads files held index.snapshots
    let snapshots :=
      if read.unreadable.isEmpty then read.snapshots
      else read.snapshots.filter fun s => s.baseSnapshotId.all (!read.unreadable.contains ·)
    return some {
      formatVersion := max index.formatVersion formatVersion
      worldSize := index.worldSize
      snapshots := snapshots
      retention := index.retention
      lineage := index.lineage
      ranksWritten := read.ranksWritten }

end ManifestIo
end Moonclip
