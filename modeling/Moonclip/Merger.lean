import Moonclip.Coordinator

/-! The delta merger: dropping the deltas a newer one supersedes, and folding a
full snapshot and its deltas into one new full. -/
namespace Moonclip
open Library.Effect

inductive MergeOutcome where
  | merged
  | nothingToMerge
  | busy
deriving DecidableEq, Repr

namespace Merger

/-- What a full merge finds to do: nothing, nothing yet, or a base and the deltas
taken against it. -/
inductive FullPlan where
  | nothing
  | unfinished
  | fold (base : Snapshot) (deltas : List Snapshot)

def fullPlan (m : Manifest) : Except MoonclipError FullPlan :=
  match m.lastFullSnapshot with
  | none => .error (.notFound "No full snapshot")
  | some base =>
    let deltas := m.snapshots.filter fun s => s.baseSnapshotId == some base.id && s.finalized
    if deltas.isEmpty then .ok .nothing
    else if m.snapshots.any fun s => s.baseSnapshotId == some base.id && !s.finalized then
      .ok .unfinished
    else .ok (.fold base deltas)

/-- What a stride merge finds to do: fold everything, nothing, or drop what the
newest finalized delta supersedes. -/
inductive StridePlan where
  | full
  | idle
  | drop (superseded : List Uuid)
deriving DecidableEq

/-- The trailing run of deltas. -/
def tail (m : Manifest) : List Snapshot :=
  m.snapshots.drop (m.snapshots.length - m.pendingDeltaCount)

def superseded (tail : List Snapshot) (survivor : Snapshot) : List Uuid :=
  (tail.filter fun s =>
    s.finalized && s.id != survivor.id && s.baseSnapshotId == survivor.baseSnapshotId).map (·.id)

def stridePlan (config : MergerConfig) (m : Manifest) : StridePlan :=
  if config.maxChainDepth ≤ m.pendingDeltaCount then .full
  else if config.stride = 0 ∨ m.pendingDeltaCount < config.stride then .idle
  else match (tail m).reverse.find? (·.finalized) with
    | none => .idle
    | some survivor =>
      if superseded (tail m) survivor = [] then .idle else .drop (superseded (tail m) survivor)

def without (ids : List Uuid) (snapshots : List Snapshot) : List Snapshot :=
  snapshots.filter fun s => !ids.contains s.id

/-- The list once the group is folded: in its place the merged snapshot, by step. -/
def folded (group : List Uuid) (merged : Snapshot) (snapshots : List Snapshot) : List Snapshot :=
  (without group snapshots ++ [merged]).insertionSort fun a b => a.step ≤ b.step

section
variable [SerdeJson]

/-- Publish a new list; a failed write leaves the list as it was. -/
def publish (edit : List Snapshot → List Snapshot) : Act Unit := fun w =>
  let previous := w.manifest.snapshots
  match ManifestIo.persist { w with manifest := { w.manifest with snapshots := edit previous } } with
  | .ok a w' => .ok a w'
  | .error e w' => .error e { w' with manifest := { w'.manifest with snapshots := previous } }

/-- Run a merge holding its claim; `refused` where somebody reads one of `ids`. -/
def withClaim (ids : List Uuid) (refused : Act α) (act : Act α) : Act α := do
  match (← get).inFlight.claim ids with
  | none => refused
  | some claimed =>
    bracket (fun w => { w with inFlight := claimed })
      (fun w => { w with inFlight := w.inFlight.unclaim ids }) act

end

section
variable [Zstd]

/-- Load a tensor's compressed bytes: the file of its own if it names one, else
its range of the rank's pack. -/
def loadCompressedData (files : Files) (snap : Snapshot) (rank : Nat) (entry : TensorEntry) :
    Except MoonclipError Bytes :=
  match entry.filename with
  | some filename => Tensor.truncateTo entry.compressedSize <$> Storage.get files filename
  | none =>
    match (snap.ranks[rank]?).bind (·.packFile) with
    | none => .error noData
    | some packFile => do
      let data ← Storage.getRange files packFile entry.offset entry.compressedSize
      if data.length = entry.compressedSize then return data else throw noData
where
  noData : MoonclipError := .notFound ("No data found for tensor '" ++ entry.name ++ "'")

def storageText : TensorStorage → String
  | .full => "Full"
  | .deltaXor => "DeltaXor"
  | .skipped => "Skipped"
  | .aliased => "Alias"

def loadTensorData (files : Files) (snap : Snapshot) (rank : Nat) (algo : CompressionAlgo)
    (entry : TensorEntry) : Except MoonclipError Bytes :=
  match entry.storage with
  | .full => do
    let compressed ← loadCompressedData files snap rank entry
    Compression.decompress compressed algo
  | other => .error (.delta ("Merger can only process Full tensors, got " ++ storageText other ++
      " for '" ++ entry.name ++ "'"))

/-- The base snapshot's bytes for `name`, following an alias. -/
def baseTensorData (files : Files) (base : Snapshot) (rank : Nat) (algo : CompressionAlgo)
    (name : String) : Except MoonclipError Bytes :=
  match base.ranks[rank]? with
  | none => .error (.notFound ("Rank " ++ toString rank ++ " is not in base snapshot " ++
      uuidText base.id))
  | some baseRank => go baseRank 8 name
where
  go (baseRank : RankEntry) : Nat → String → Except MoonclipError Bytes
    | 0, _ => .error (.delta ("Alias chain starting at '" ++ name ++ "' in base snapshot " ++
        uuidText base.id ++ " does not end"))
    | hops + 1, current =>
      match baseRank.tensors.find? (·.name == current) with
      | none => .error (.notFound ("Tensor '" ++ current ++ "' is not in base snapshot " ++
          uuidText base.id))
      | some entry =>
        if entry.storage = .aliased then
          match entry.aliasOf with
          | none => .error (.notFound ("Alias '" ++ current ++ "' has no target"))
          | some target => go baseRank hops target
        else loadTensorData files base rank algo entry

/-- The bytes a tensor of the newest delta stands for. -/
def currentData (files : Files) (base source : Snapshot) (rank : Nat) (algo : CompressionAlgo)
    (entry : TensorEntry) : Except MoonclipError Bytes :=
  match entry.storage with
  | .full => loadTensorData files source rank algo entry
  | .skipped => baseTensorData files base rank algo entry.name
  | .deltaXor => do
    let baseRaw ← baseTensorData files base rank algo entry.name
    let compressed ← loadCompressedData files source rank entry
    let deltaBytes ← Compression.decompress compressed algo
    let deltaBytes := if entry.shuffled then
      Shuffle.unshuffle deltaBytes (Shuffle.elementSize entry.dtype) else deltaBytes
    Delta.applyDelta baseRaw deltaBytes
  | .aliased => .error (.delta "unreachable: aliases are carried through")

variable [Xxh3]

/-- A tensor rewritten as full; an alias is carried through untouched. -/
def mergeTensor (files : Files) (base source : Snapshot) (rank : Nat) (algo : CompressionAlgo)
    (entry : TensorEntry) : Except MoonclipError ProcessedTensor :=
  if entry.storage = .aliased then .ok ⟨entry, none⟩
  else do
    let data ← currentData files base source rank algo entry
    let compressed ← Compression.compress data algo
    return {
      entry := {
        name := entry.name
        shape := entry.shape
        dtype := entry.dtype
        originalDtype := entry.originalDtype
        quantScale := entry.quantScale
        storage := .full
        aliasOf := none
        filename := none
        offset := 0
        compressedSize := compressed.length
        rawSize := data.length
        hashRaw := hashHex data
        hashCompressed := some (hashHex compressed)
        shuffled := false }
      writeData := some compressed }

end

/-- What every rank's descriptor of the merged snapshot repeats. -/
structure MergedContext where
  id : Uuid
  createdAt : Nat
  step : Nat
  metadata : Metadata
  compression : CompressionAlgo

def mergedContext (id : Uuid) (createdAt : Nat) (algo : CompressionAlgo) (last : Snapshot)
    (count : Nat) : MergedContext where
  id := id
  createdAt := createdAt
  step := last.step
  metadata := (last.metadata.insert "full_merge" "true").insert "merged_deltas" (toString count)
  compression := algo

/-- The ranks of the base and of the newest delta, sorted. -/
def allRanks (base last : Snapshot) : List Nat :=
  ((base.ranks.keys ++ last.ranks.keys).insertionSort (· ≤ ·)).dedup

/-- The newest delta decides which tensors exist; the base stands in for a rank
the delta does not have. -/
def sourceOf (base last : Snapshot) (rank : Nat) : Option (Snapshot × RankEntry) :=
  match last.ranks[rank]? with
  | some entry => some (last, entry)
  | none => (base.ranks[rank]?).map (base, ·)

def mergedRankEntry (rank : Nat) (packFile : Path) (placed : List ProcessedTensor) : RankEntry :=
  let entries := placed.map (·.entry)
  let aliasCount := entries.countP (·.storage = .aliased)
  { rank := rank
    tensors := entries
    packFile := some packFile
    totalCompressed := ((Coordinator.blobsOf placed).map List.length).sum
    totalRaw := (entries.map (·.rawSize)).sum
    skippedCount := aliasCount
    deltaCount := 0
    fullCount := entries.length - aliasCount }

section
variable [Zstd] [Xxh3] [SerdeJson]

/-- One rank of the merged snapshot: its entry, and the parts of its pack. -/
def mergedPack (files : Files) (base last : Snapshot) (context : MergedContext)
    (worldSize rank : Nat) : Except MoonclipError (Option (RankEntry × List Bytes)) :=
  match sourceOf base last rank with
  | none => .ok none
  | some (source, sourceRank) => do
    let merged ← sourceRank.tensors.mapM (mergeTensor files base source rank context.compression)
    let placed := Coordinator.assignOffsets Pack.headerLen merged
    let rankEntry := mergedRankEntry rank (packPath context.id rank) placed
    let parts ← Coordinator.packParts
      { snapshotId := context.id
        step := context.step
        createdAt := context.createdAt
        baseSnapshotId := none
        metadata := context.metadata
        compression := context.compression
        worldSize := worldSize
        rank := rankEntry } (Coordinator.blobsOf placed)
    return some (rankEntry, parts)

def mergeRank (base last : Snapshot) (context : MergedContext) (worldSize rank : Nat) :
    Act (Option (Nat × RankEntry)) := do
  match ← returning (mergedPack (← get).disk.files base last context worldSize rank) with
  | none => return none
  | some (rankEntry, parts) =>
    Storage.putParts (packPath context.id rank) parts
    return some (rank, rankEntry)

def mergeRanks (base last : Snapshot) (context : MergedContext) (worldSize : Nat) :
    List Nat → Act (List (Nat × RankEntry))
  | [] => return []
  | rank :: rest => do
    let merged ← mergeRank base last context worldSize rank
    let others ← mergeRanks base last context worldSize rest
    return merged.toList ++ others

def mergedSnapshot (context : MergedContext) (ranks : List (Nat × RankEntry)) : Snapshot where
  id := context.id
  step := context.step
  createdAt := context.createdAt
  ranks := .ofList ranks
  baseSnapshotId := none
  metadata := context.metadata
  compression := context.compression
  finalized := true
  pinned := false

/-- Fold a base and its deltas: write the packs, publish, then unlink. -/
def foldGroup (base : Snapshot) (deltas : List Snapshot) (last : Snapshot)
    (context : MergedContext) : Act MergeOutcome := do
  let ranks := allRanks base last
  let merged := mergedSnapshot context (← mergeRanks base last context ranks.length ranks)
  publish (folded (deltas.map (·.id) ++ [base.id]) merged)
  Coordinator.unlinkSnapshots (deltas ++ [base])
  return .merged

/-- Merge all deltas into the base, producing a new full snapshot. -/
def doFullMerge (algo : CompressionAlgo) (mergedId : Uuid) (createdAt : Nat) :
    Act MergeOutcome := do
  match ← returning (fullPlan (← get).manifest) with
  | .nothing => return .nothingToMerge
  | .unfinished => return .busy
  | .fold base deltas =>
    withClaim (base.id :: deltas.map (·.id)) (return .busy) do
      match deltas.getLast? with
      | none => return .nothingToMerge
      | some last =>
        foldGroup base deltas last (mergedContext mergedId createdAt algo last deltas.length)

/-- Drop the deltas the newest one supersedes, or fold the whole chain once it is
too deep. -/
def doStrideMerge (config : MergerConfig) (algo : CompressionAlgo) (mergedId : Uuid)
    (createdAt : Nat) : Act Unit := do
  let m := (← get).manifest
  match stridePlan config m with
  | .full => discard (doFullMerge algo mergedId createdAt)
  | .idle => return
  | .drop superseded =>
    withClaim superseded (return) do
      publish (without superseded)
      Coordinator.unlinkSnapshots (m.snapshots.filter fun s => superseded.contains s.id)

end
end Merger
end Moonclip
