import Moonclip.Recovery

/-! Saving from several ranks: rank 0 lists the snapshot before anybody writes to
it, each rank writes its own pack and stops there, and rank 0 collects the ranks
from the packs. -/
namespace Moonclip
open Library.Codec Library.Effect

namespace Coordinator

section
variable [SerdeJson]

/-- The manifest as a re-read leaves it. A copy that is `trusted` lends its ranks;
with nothing in storage it is all there is. -/
def reloaded (trusted : Bool) (files : Files) (m : Manifest) : Except MoonclipError Manifest :=
  (·.getD m) <$> ManifestIo.load files (if trusted then some m else none)

def reloadManifest : Act Unit := do
  let w ← get
  let m ← returning (reloaded true w.disk.files w.manifest)
  modify fun w => { w with manifest := m }

theorem reloadManifest_eq_ok {w after : World} : reloadManifest w = .ok () after ↔
    ∃ m, reloaded true w.disk.files w.manifest = .ok m ∧ after = { w with manifest := m } := by
  simp only [reloadManifest, Library.Effect.bind_eq_ok, get_eq_ok, returning_eq_ok, modify_eq_ok]
  constructor
  · rintro ⟨_, _, ⟨rfl, rfl⟩, m, _, ⟨read, rfl⟩, rfl⟩
    exact ⟨m, read, rfl⟩
  · rintro ⟨m, read, rfl⟩
    exact ⟨_, _, ⟨rfl, rfl⟩, m, _, ⟨read, rfl⟩, rfl⟩

/-- List a snapshot that no rank has written to yet. -/
def createSnapshot (cfg : Config) (snapId : Uuid) (context : SnapshotContext) : Act Unit := do
  let w ← get
  let base := chooseBase w.manifest w.inFlight context.step
  let snapshot : Snapshot := {
    id := snapId
    step := context.step
    createdAt := context.createdAt
    ranks := ∅
    baseSnapshotId := base.map (·.id)
    metadata := context.metadata
    compression := cfg.compression
    finalized := false
    pinned := false }
  modify fun w => { w with manifest :=
    { w.manifest with snapshots := w.manifest.snapshots ++ [snapshot] } }
  ManifestIo.persist

def snapshotMissing (snapId : Uuid) : MoonclipError := .notFound ("Snapshot " ++ uuidText snapId)

/-- What one pack of `snapId` says its rank wrote. -/
def shardOf (files : Files) (snapId : Uuid) (file : Path) : Except MoonclipError RankEntry := do
  let header ← Storage.getRange files file 0 Pack.headerLen
  match Pack.decodeHeader header with
  | none => throw (.storage (file.text ++ " has no pack header"))
  | some (offset, length) =>
    let encoded ← Storage.getRange files file offset length
    if encoded.length ≠ length then
      throw (.storage (file.text ++ " is truncated: the rank that wrote it did not finish"))
    let descriptor ← (SerdeJson.descriptor.fromSlice encoded).mapError fun e =>
      .serialization (file.text ++ ": " ++ e)
    if descriptor.snapshotId ≠ snapId then
      throw (.storage (file.text ++ " belongs to snapshot " ++ uuidText descriptor.snapshotId ++
        ", not " ++ uuidText snapId))
    return descriptor.rank

def packsOf (files : Files) (snapId : Uuid) : List Path :=
  (Storage.listSnapshot files snapId).filter Recovery.isPack

def shardMap (shards : List RankEntry) : RankMap := .ofList (shards.map fun shard => (shard.rank, shard))

/-- Every rank's entry for `snapId`, read back from the packs themselves. -/
def collectRankShards (files : Files) (snapId : Uuid) : Except MoonclipError RankMap :=
  shardMap <$> (packsOf files snapId).mapM (shardOf files snapId)

/-- The snapshot once its ranks are known: all of them have to have reported. -/
def assemble (cfg : Config) (snapId : Uuid) (shards : RankMap) (m : Manifest) :
    Except MoonclipError Manifest :=
  if (m.findSnapshot snapId).isNone then .error (snapshotMissing snapId)
  else if shards.size < cfg.worldSize then
    .error (.config ("Cannot finalize: only " ++ toString shards.size ++ "/" ++
      toString cfg.worldSize ++ " ranks have saved"))
  else
    let assembled (s : Snapshot) : Snapshot := { s with ranks := shards, finalized := true }
    .ok { m with snapshots := m.snapshots.modify (m.snapshots.findIdx (·.id == snapId)) assembled }

section
variable {cfg : Config} {snapId : Uuid} {shards : RankMap} {m m' : Manifest}

omit [SerdeJson] in
theorem modify_at {α : Type} {f : α → α} {before after : List α} {a : α} :
    (before ++ a :: after).modify before.length f = before ++ f a :: after := by
  induction before with
  | nil => rfl
  | cons b before ih => simpa using ih

omit [SerdeJson] in
/-- The first snapshot of that identifier is the one filled in. -/
theorem assemble_eq_ok (made : assemble cfg snapId shards m = .ok m') :
    cfg.worldSize ≤ shards.size ∧ ∃ before s after, m.snapshots = before ++ s :: after ∧
      (∀ t ∈ before, t.id ≠ snapId) ∧ s.id = snapId ∧
      m' = { m with snapshots := before ++ { s with ranks := shards, finalized := true } :: after } := by
  unfold assemble at made
  split at made
  · contradiction
  · rename_i found
    split at made
    · contradiction
    · rename_i enough
      have listed : (m.snapshots.find? (·.id == snapId)).isSome := by
        simpa [Manifest.findSnapshot, Option.ne_none_iff_isSome] using found
      obtain ⟨s, found⟩ := Option.isSome_iff_exists.mp listed
      obtain ⟨own, before, after, split, older⟩ := List.find?_eq_some_iff_append.mp found
      have place : m.snapshots.findIdx (·.id == snapId) = before.length := by
        rw [split, List.findIdx_append, List.findIdx_eq_length_of_false (by simpa using older)]
        simp [List.findIdx_cons, own]
      refine ⟨by omega, before, s, after, split, by simpa using older, by simpa using own, ?_⟩
      simp only [place] at made
      rw [split, modify_at] at made
      exact (Except.ok.inj made).symm
end

/-- The two together: what `finalizeSnapshot` makes of the packs. -/
def finalized (cfg : Config) (files : Files) (snapId : Uuid) (m : Manifest) :
    Except MoonclipError Manifest := do
  let shards ← collectRankShards files snapId
  assemble cfg snapId shards m

def finalizeSnapshot (cfg : Config) (snapId : Uuid) : Act Unit := do
  reloadManifest
  let w ← get
  let m ← returning (finalized cfg w.disk.files snapId w.manifest)
  modify fun w => { w with manifest := m }
  let evicted ← applyRetention
  unlinkSnapshots evicted

variable [Zstd] [Xxh3]

/-- One rank's part of a snapshot: its pack, written against the base the snapshot
was listed with. -/
def saveRank (cfg : Config) (snapId : Uuid) (tensors : List TensorData) : Act Unit := do
  reloadManifest
  let m := (← get).manifest
  match m.findSnapshot snapId with
  | none => throw (snapshotMissing snapId)
  | some snap =>
    let base := snap.baseSnapshotId.bind m.findSnapshot
    let pins := (base.map (·.id)).toList
    discard (bracket (fun w => { w with inFlight := w.inFlight.pin pins })
      (fun w => { w with inFlight := w.inFlight.unpin pins })
      (saveRankTensors cfg snapId base tensors ⟨snap.step, snap.createdAt, snap.metadata⟩))

/-- The pack a rank writes, from what it reads before it writes anything. -/
def packOfSave (cfg : Config) (snapId : Uuid) (base : Option Snapshot) (tensors : List TensorData)
    (context : SnapshotContext) (w : World) : Except MoonclipError (RankEntry × List Bytes) := do
  let processed ← processAll cfg w.disk.files (buildBaseCache cfg.rank w.retainedBase base) tensors
  let placed := assignOffsets Pack.headerLen processed
  let rankEntry := rankEntryOf cfg.rank (packPath snapId cfg.rank) (placed.map (·.entry))
  let parts ← packParts
    { snapshotId := snapId
      step := context.step
      createdAt := context.createdAt
      baseSnapshotId := base.map (·.id)
      metadata := context.metadata
      compression := cfg.compression
      worldSize := cfg.worldSize
      rank := rankEntry } (blobsOf placed)
  return (rankEntry, parts)

/-- Whether the tensors make a pack and the file system takes it. -/
def packWritten (cfg : Config) (snapId : Uuid) (base : Option Snapshot) (tensors : List TensorData)
    (context : SnapshotContext) (w : World) : Bool :=
  match packOfSave cfg snapId base tensors context w with
  | .ok (_, parts) => w.disk.accepts (packPath snapId cfg.rank) (pad w.disk.pageSize parts.flatten)
  | .error _ => false

variable {cfg : Config} {snapId : Uuid} {base : Option Snapshot} {tensors : List TensorData}
  {context : SnapshotContext} {w : World}

/-- Everything is read first, and one write ends it. -/
theorem saveRankTensors_spec : Triple (fun s => s = w) (saveRankTensors cfg snapId base tensors context)
    (fun entry s => packWritten cfg snapId base tensors context w = true ∧
      ∃ parts, packOfSave cfg snapId base tensors context w = .ok (entry, parts) ∧
      s.disk = w.disk.change (.put (packPath snapId cfg.rank) (pad w.disk.pageSize parts.flatten)) ∧
      s.manifest = w.manifest ∧ s.inFlight = w.inFlight)
    (fun _ s => packWritten cfg snapId base tensors context w = false ∧
      s.disk = w.disk ∧ s.manifest = w.manifest ∧ s.inFlight = w.inFlight) := by
  refine Triple.get_bind fun w₀ => ?_
  refine Triple.learn (fun _ start => start.2) fun same => ?_
  subst same
  extract_lets cache
  cases made : processAll cfg w₀.disk.files cache tensors with
  | error e =>
    rintro s ⟨rfl, _⟩
    have none : packOfSave cfg snapId base tensors context s = .error e := by
      simp only [packOfSave]
      rw [made]
      rfl
    exact ⟨by simp [packWritten, none], rfl, rfl, rfl⟩
  | ok processed =>
    refine Triple.bind (fun pts s => pts = processed ∧ s = w₀)
      (Triple.returning (fun _ _ same start => ⟨(Except.ok.inj same).symm, start.1⟩) fun _ _ no _ =>
        nomatch no)
      fun pts => ?_
    refine Triple.learn (fun _ start => start.1) fun same => ?_
    subst same
    extract_lets placed rankEntry rest
    have go : Triple (fun s => s.disk = w₀.disk ∧ s.manifest = w₀.manifest ∧
      s.inFlight = w₀.inFlight) (rest ())
        (fun entry s => packWritten cfg snapId base tensors context w₀ = true ∧
          ∃ parts, packOfSave cfg snapId base tensors context w₀ = .ok (entry, parts) ∧
          s.disk = w₀.disk.change (.put (packPath snapId cfg.rank) (pad w₀.disk.pageSize parts.flatten)) ∧
          s.manifest = w₀.manifest ∧ s.inFlight = w₀.inFlight)
        (fun _ s => packWritten cfg snapId base tensors context w₀ = false ∧
          s.disk = w₀.disk ∧ s.manifest = w₀.manifest ∧ s.inFlight = w₀.inFlight) := by
      simp only [rest]
      have whole : packOfSave cfg snapId base tensors context w₀ =
          (rankEntry, ·) <$> packParts
            { snapshotId := snapId
              step := context.step
              createdAt := context.createdAt
              baseSnapshotId := base.map (·.id)
              metadata := context.metadata
              compression := cfg.compression
              worldSize := cfg.worldSize
              rank := rankEntry } (blobsOf placed) := by
        simp only [packOfSave]
        rw [made]
        rfl
      generalize packParts _ (blobsOf placed) = packed at whole ⊢
      cases packed with
      | error e =>
        rintro s ⟨disk, listed, flight⟩
        exact ⟨by simp [packWritten, whole], disk, listed, flight⟩
      | ok parts =>
        have found : packOfSave cfg snapId base tensors context w₀ = .ok (rankEntry, parts) := whole
        refine Triple.bind (fun p s => p = parts ∧ s.disk = w₀.disk ∧ s.manifest = w₀.manifest ∧
            s.inFlight = w₀.inFlight)
          (Triple.returning (fun _ _ same start => ⟨(Except.ok.inj same).symm, start⟩)
            fun _ _ no _ => nomatch no)
          fun p => ?_
        refine Triple.learn (fun _ start => start.1) fun same => ?_
        subst same
        refine Triple.bind _ (Storage.put_either (fun s start taken => ?_) fun s e start taken => ?_)
          fun _ => Triple.pure fun _ left => left
        · obtain ⟨_, disk, listed, flight⟩ := start
          rw [disk] at taken ⊢
          exact ⟨by simpa [packWritten, found] using taken, p, found, rfl, listed, flight⟩
        · obtain ⟨_, disk, listed, flight⟩ := start
          rw [disk] at taken
          exact ⟨by simpa [packWritten, found] using taken, disk, listed, flight⟩
    split
    · refine Triple.bind _ (Triple.modified fun s start => ?_) fun _ => go
      rw [start.2]
      exact ⟨rfl, rfl, rfl⟩
    · refine Triple.weaken _ go (fun s start => ?_) (fun _ _ left => left) fun _ _ left => left
      rw [start.2]
      exact ⟨rfl, rfl, rfl⟩

end
end Coordinator
end Moonclip
