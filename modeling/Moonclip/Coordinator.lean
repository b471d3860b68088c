import Moonclip.ManifestIo
import Moonclip.Retention
import Moonclip.Tensor

/-! The coordinator: saving a rank's tensors, loading a snapshot, pins and
retention. What several threads do at once is cut at the manifest lock; here one
call runs from start to end. -/
namespace Moonclip
open Library.Effect

structure MergerConfig where
  stride : Nat
  maxChainDepth : Nat
deriving DecidableEq, Repr

structure Config where
  worldSize : Nat
  rank : Nat
  compression : CompressionAlgo
  retention : RetentionPolicy
  lineage : LineageConfig
  deltaMaxRatio : Float
  saveDtype : DTypePolicy
  keepBaseInMemory : Bool
  merger : Option MergerConfig

structure SnapshotContext where
  step : Nat
  createdAt : Nat
  metadata : Metadata

/-- Every file a snapshot names for `rank`, or for all its ranks with `none`. -/
def Snapshot.filesOf (s : Snapshot) (rank : Option Nat) : List Path :=
  (s.ranks.toList.filter fun (r, _) => rank.all (r == ·)).flatMap fun (_, entry) =>
    entry.packFile.toList ++ entry.tensors.filterMap (·.filename)

namespace Coordinator

section
variable [Zstd] [Xxh3]

def rankMissing (rank : Nat) (snapId : Uuid) : MoonclipError :=
  .notFound ("Rank " ++ toString rank ++ " not found in snapshot " ++ uuidText snapId)

def tensorMissing (name : String) (baseId : Uuid) : MoonclipError :=
  .notFound ("Tensor '" ++ name ++ "' not in base snapshot " ++ uuidText baseId)

def packOf (files : Files) (entry : RankEntry) : Except MoonclipError PackSource :=
  match entry.packFile with
  | some p => .whole <$> Storage.get files p
  | none => .ok .perFile

def findBaseTensorEntryWithPack (rank : Nat) (files : Files) (m : Manifest) (baseId : Uuid)
    (tensorName : String) : Except MoonclipError BaseEntry :=
  match m.findSnapshot baseId with
  | none => .error (.notFound ("Base snapshot " ++ uuidText baseId))
  | some baseSnap =>
    match baseSnap.ranks[rank]? with
    | none => .error (.notFound ("Rank " ++ toString rank ++ " not in base snapshot " ++
        uuidText baseId))
    | some rankEntry =>
      match rankEntry.tensors.find? (·.name == tensorName) with
      | none => .error (tensorMissing tensorName baseId)
      | some entry => (⟨entry, baseSnap.compression, ·⟩) <$> packOf files rankEntry

/-- The base's entries and pack, fetched once for all tensors of a load. -/
structure BaseCtx where
  entries : EntryMap
  compression : CompressionAlgo
  pack : PackSource

def baseContext (rank : Nat) (files : Files) (m : Manifest) (needsBase : Bool)
    (baseId : Option Uuid) : Except MoonclipError (Option BaseCtx) :=
  match if needsBase then baseId.bind m.findSnapshot else none with
  | none => .ok none
  | some baseSnap =>
    match baseSnap.ranks[rank]? with
    | none => .ok none
    | some entry =>
      (fun pack => some ⟨entriesByName entry.tensors, baseSnap.compression, pack⟩) <$>
        packOf files entry

def resolver (rank : Nat) (files : Files) (m : Manifest) (ctx : Option BaseCtx) (baseId : Uuid)
    (tensorName : String) : Except MoonclipError BaseEntry :=
  match ctx with
  | none => findBaseTensorEntryWithPack rank files m baseId tensorName
  | some ctx =>
    match ctx.entries[tensorName]? with
    | none => .error (tensorMissing tensorName baseId)
    | some entry => .ok ⟨entry, ctx.compression, ctx.pack⟩

/-- Second pass of a load: aliases share bytes with a tensor already loaded. -/
def loadAliases (out : TensorMap) : List TensorEntry → Except MoonclipError TensorMap
  | [] => .ok out
  | entry :: rest =>
    if entry.storage ≠ .aliased then loadAliases out rest
    else match entry.aliasOf with
      | none => .error (.notFound ("Alias '" ++ entry.name ++ "' has no target"))
      | some target =>
        match out[target]? with
        | none => .error (.notFound ("Alias '" ++ entry.name ++ "' points at '" ++ target ++
            "', which is not in this snapshot"))
        | some data => loadAliases (out.insert entry.name data) rest

/-- The tensors stored under their own names, then the aliases. -/
def loadEntries (loadOwn : TensorEntry → Except MoonclipError Bytes) (entries : List TensorEntry) :
    Except MoonclipError TensorMap := do
  let pairs ← (entries.filter (·.storage != .aliased)).mapM fun entry => do
    let data ← loadOwn entry
    return (entry.name, data)
  loadAliases (.ofList pairs) entries

/-- What one rank of a snapshot reads back as. -/
def loadRank (rank : Nat) (files : Files) (m : Manifest) (snap : Snapshot) :
    Except MoonclipError TensorMap :=
  match snap.ranks[rank]? with
  | none => .error (rankMissing rank snap.id)
  | some rankEntry => do
    let pack ← packOf files rankEntry
    let needsBase := rankEntry.tensors.any (·.storage != .full)
    let ctx ← baseContext rank files m needsBase snap.baseSnapshotId
    loadEntries (Tensor.loadTensor files snap.baseSnapshotId snap.compression pack
      (resolver rank files m ctx)) rankEntry.tensors

/-- Load a snapshot for this rank, from the files that are there. -/
def load (rank : Nat) (files : Files) (m : Manifest) (snapId : Uuid) :
    Except MoonclipError TensorMap :=
  match m.findSnapshot snapId with
  | none => .error (.notFound ("Snapshot " ++ uuidText snapId))
  | some snap => loadRank rank files m snap

end

/-- A base a merge has claimed is not picked up: the save writes a full instead. -/
def chooseBase (m : Manifest) (inFlight : InFlight) (step : Nat) : Option Snapshot :=
  if m.shouldForceFull step then none
  else m.lastFullSnapshot.filter fun b => !inFlight.isDoomed b.id

section
variable [Zstd] [Xxh3]

/-- Retained bytes serve only the snapshot they were taken from. -/
def buildBaseCache (rank : Nat) (retained : Option RetainedBase) (base : Option Snapshot) :
    Option BaseCache := do
  let base ← base
  let rankEntry ← base.ranks[rank]?
  return {
    packFile := rankEntry.packFile
    entries := entriesByName rankEntry.tensors
    compression := base.compression
    raw := (retained.filter (·.snapId == base.id)).map (·.tensors) }

/-- Every tensor processed, then an entry for each that shares another's bytes. -/
def processAll (cfg : Config) (files : Files) (cache : Option BaseCache)
    (tensors : List TensorData) : Except MoonclipError (List ProcessedTensor) := do
  let planned := tensors.zip (Tensor.dedupPlan [] tensors)
  let unique := planned.filterMap fun (t, owner) => if owner.isNone then some t else none
  let processed ← unique.mapM fun t =>
    Tensor.processTensor files cache cfg.compression cfg.deltaMaxRatio cfg.saveDtype t
  let written := entriesByName (processed.map (·.entry))
  let aliases := planned.filterMap fun (t, owner) => do
    let target ← written[← owner]?
    return Tensor.makeAliasEntry t target
  return processed ++ aliases.map (⟨·, none⟩)

/-- Blobs lie one after another behind the header. -/
def assignOffsets : Nat → List ProcessedTensor → List ProcessedTensor
  | _, [] => []
  | offset, pt :: rest =>
    match pt.writeData with
    | some data =>
      { pt with entry := { pt.entry with offset := offset } } ::
        assignOffsets (offset + data.length) rest
    | none => pt :: assignOffsets offset rest

def blobsOf (processed : List ProcessedTensor) : List Bytes := processed.filterMap (·.writeData)

def rankEntryOf (rank : Nat) (packFile : Path) (entries : List TensorEntry) : RankEntry where
  rank := rank
  tensors := entries
  packFile := some packFile
  totalCompressed := (entries.map (·.compressedSize)).sum
  totalRaw := (entries.map (·.rawSize)).sum
  skippedCount := entries.countP fun e => e.storage = .skipped ∨ e.storage = .aliased
  deltaCount := entries.countP (·.storage = .deltaXor)
  fullCount := entries.countP (·.storage = .full)

/-- Keep a full snapshot's bytes as the base for the next delta: of the tensors
stored in full and as they arrived. -/
def retainBase (snapId : Uuid) (tensors : List TensorData) (processed : List ProcessedTensor) :
    RetainedBase where
  snapId := snapId
  tensors :=
    let full := (processed.filter fun pt =>
      pt.entry.storage = .full ∧ pt.entry.originalDtype.isNone).map (·.entry.name)
    .ofList ((tensors.filter fun t => full.contains t.name).map fun t => (t.name, t.data))

end

section
variable [SerdeJson]

/-- Header, blobs and descriptor, as the parts of one file. -/
def packParts (descriptor : PackDescriptor) (blobs : List Bytes) :
    Except MoonclipError (List Bytes) := do
  let encoded ← (SerdeJson.descriptor.toVec descriptor).mapError .serialization
  let blobsEnd := Pack.headerLen + (blobs.map List.length).sum
  return Pack.encodeHeader blobsEnd encoded.length :: blobs ++ [encoded]

/-- The pinned steps as `pins.json` has them, or `none` for a store without one. -/
def readPins (files : Files) : Except MoonclipError (Option (List Nat)) :=
  match files.find? .pinsJson with
  | none => .ok none
  | some bytes =>
    some <$> (SerdeJson.pins.fromSlice (Library.Codec.trimZeros bytes)).mapError .serialization

def writePins (steps : List Nat) : Act Unit := do
  let json ← returning ((SerdeJson.pins.toVec steps).mapError .serialization)
  Storage.put .pinsJson json

/-- Keep, or stop keeping, the newest snapshot at `step`. -/
def setPinned (step : Nat) (pinned : Bool) : Act Bool := do
  let m := (← get).manifest
  match m.snapshots.reverse.find? fun s => s.step == step && s.finalized with
  | none => return false
  | some target =>
    let flagged := m.snapshots.map fun s => if s.id = target.id then { s with pinned := pinned } else s
    modify fun w => { w with manifest := { w.manifest with snapshots := flagged } }
    if m.snapshots.any fun s => s.id == target.id && s.pinned != pinned then ManifestIo.persist
    let recorded ← returning (readPins (← get).disk.files)
    let steps := recorded.getD ((flagged.filter fun s => s.pinned && s.finalized).map (·.step))
    let steps := steps.filter (· != step) ++ (if pinned then [step] else [])
    writePins (steps.insertionSort (· ≤ ·)).dedup
    return true

/-- Honour the pins of every process, then cap the fulls and the total. What was
evicted is still on disk: the caller unlinks it. -/
def applyRetention : Act (List Snapshot) := do
  let steps ← returning (readPins (← get).disk.files)
  let (kept, evicted) := Retention.retain ((← get).manifest.syncPins steps)
  modify fun w => { w with manifest := kept }
  ManifestIo.persist
  return evicted

/-- Remove the files of snapshots the manifest no longer names, or leave them
all where somebody is still reading one. -/
def unlinkSnapshots (doomed : List Snapshot) : Act Unit := do
  if (← get).inFlight.anyPinned (doomed.map (·.id)) then return
  (doomed.flatMap fun s => s.filesOf none ++ [ranksPath s.id]).forM Storage.delete

variable [Zstd] [Xxh3]

def saveRankTensors (cfg : Config) (snapId : Uuid) (base : Option Snapshot)
    (tensors : List TensorData) (context : SnapshotContext) : Act RankEntry := do
  let w ← get
  let cache := buildBaseCache cfg.rank w.retainedBase base
  let processed ← returning (processAll cfg w.disk.files cache tensors)
  if base.isNone && cfg.keepBaseInMemory then
    modify fun w => { w with retainedBase := some (retainBase snapId tensors processed) }
  let placed := assignOffsets Pack.headerLen processed
  let rankEntry := rankEntryOf cfg.rank (packPath snapId cfg.rank) (placed.map (·.entry))
  let parts ← returning (packParts
    { snapshotId := snapId
      step := context.step
      createdAt := context.createdAt
      baseSnapshotId := base.map (·.id)
      metadata := context.metadata
      compression := cfg.compression
      worldSize := cfg.worldSize
      rank := rankEntry } (blobsOf placed))
  Storage.putParts (packPath snapId cfg.rank) parts
  return rankEntry

def snapshotOf (cfg : Config) (snapId : Uuid) (base : Option Snapshot) (context : SnapshotContext)
    (rankEntry : RankEntry) : Snapshot where
  id := snapId
  step := context.step
  createdAt := context.createdAt
  ranks := .ofList [(cfg.rank, rankEntry)]
  baseSnapshotId := base.map (·.id)
  metadata := context.metadata
  compression := cfg.compression
  finalized := true
  pinned := false

/-- Write the snapshot, list it, and let retention choose who leaves. -/
def recordSave (cfg : Config) (snapId : Uuid) (base : Option Snapshot) (tensors : List TensorData)
    (context : SnapshotContext) : Act (List Snapshot) := do
  let rankEntry ← saveRankTensors cfg snapId base tensors context
  let snapshot := snapshotOf cfg snapId base context rankEntry
  modify fun w => { w with manifest :=
    { w.manifest with snapshots := w.manifest.snapshots ++ [snapshot] } }
  applyRetention

/-- The single-rank save. The base is pinned until the snapshot is listed. -/
def saveSync (cfg : Config) (snapId : Uuid) (tensors : List TensorData)
    (context : SnapshotContext) : Act Unit := do
  let w ← get
  let base := chooseBase w.manifest w.inFlight context.step
  let pins := (base.map (·.id)).toList
  let evicted ← bracket (fun w => { w with inFlight := w.inFlight.pin pins })
    (fun w => { w with inFlight := w.inFlight.unpin pins })
    (recordSave cfg snapId base tensors context)
  unlinkSnapshots evicted

end
end Coordinator
end Moonclip
