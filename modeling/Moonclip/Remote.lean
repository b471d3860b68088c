import Moonclip.Recovery

/-! The remote: what one side lacks is copied by name alone, and a store whose
disk is gone is brought back from its bucket. -/
namespace Moonclip
open Library.Effect

namespace Path

/-- `starts_with("snapshots/")`. -/
def inSnapshots : Path → Bool
  | .snapshots _ _ => true
  | .other name => name.startsWith "snapshots/"
  | _ => false

/-- Under `snapshots/`, and `ends_with("/ranks.json")`. -/
def describesRanks : Path → Bool
  | .snapshots _ .ranksJson => true
  | .snapshots _ (.other name) => name.endsWith "/ranks.json"
  | .other name => name.startsWith "snapshots/" && name.endsWith "/ranks.json"
  | _ => false

@[simp] theorem describesRanks_ranksPath {id : Uuid} : (ranksPath id).describesRanks = true := rfl

end Path

namespace Storage

/-- Write a file as it was, not as this side would have written it. -/
def putExact (p : Path) (data : Bytes) : Act Unit := fun w =>
  if w.disk.accepts p data then .ok () { w with disk := w.disk.change (.put p data) }
  else .error (.storage ("Failed to persist " ++ p.text)) w

theorem putExact_spec {p : Path} {data : Bytes} {pre : World → Prop} {post : Unit → World → Prop}
    {fail : MoonclipError → World → Prop}
    (written : ∀ w, pre w → post () { w with disk := w.disk.change (.put p data) })
    (refused : ∀ w e, pre w → fail e w) : Triple pre (putExact p data) post fail := by
  intro w start
  unfold putExact
  by_cases taken : w.disk.accepts p data = true
  · simpa only [taken, if_true] using written w start
  · simp only [taken]
    exact refused w _ start

end Storage

namespace RemoteSync

section
variable {σ : Type}

/-- A file that is gone by the time it is read is passed over. -/
def copyFile (source : Files) (putExact : Path → Bytes → EStateM MoonclipError σ Unit) (p : Path) :
    EStateM MoonclipError σ Unit :=
  match source.find? p with
  | some data => putExact p data
  | none => return

/-- Copy those of `files` that the destination does not hold. -/
def copyAbsent (source : Files) (putExact : Path → Bytes → EStateM MoonclipError σ Unit)
    (present files : List Path) : EStateM MoonclipError σ Unit :=
  (files.filter fun p => !present.contains p).forM (copyFile source putExact)

end

/-- Bring the remote's manifest down, alone. Whether there is one here now. -/
def restoreManifest (remote : Files) : Act Bool := do
  copyFile remote Storage.putExact .manifestJson
  return ((← get).disk.files.find? .manifestJson).isSome

/-- Bring down what is not here of `files`. -/
def pull (remote : Files) (files : List Path) : Act Unit := do
  copyAbsent remote Storage.putExact (← get).disk.files.names files

end RemoteSync

namespace Recovery

/-- Whether every file a snapshot names is on this disk or in the bucket. -/
def snapshotIsReachable (files : Files) (inBucket : List Path) (snapshot : Snapshot) : Bool :=
  (snapshot.filesOf none).all fun file => inBucket.contains file || (files.find? file).isSome

/-- Leave out what is in neither place, then the deltas whose base went. -/
def reachable (files : Files) (inBucket : List Path) (snapshots : List Snapshot) : List Snapshot :=
  let kept := snapshots.filter (snapshotIsReachable files inBucket)
  kept.filter fun s => s.baseSnapshotId.all fun base => kept.any (·.id == base)

end Recovery

namespace Coordinator

/-- The newest finalized snapshot and the base it is computed against: what a
resume loads. -/
def resumed (m : Manifest) : List Uuid :=
  match m.snapshots.reverse.find? (·.finalized) with
  | some s => s.id :: s.baseSnapshotId.toList
  | none => []

/-- What comes down at once: all but the manifest and the snapshots a resume does
not load. A merger reads them from this disk, so with one everything comes. -/
def isWanted (cfg : Config) (m : Manifest) (file : Path) : Bool :=
  file != .manifestJson &&
    (cfg.merger.isSome || !file.inSnapshots || (resumed m).any fun id => file.belongsTo id)

variable [SerdeJson]

/-- Record a manifest that is not in memory yet, whether or not that works. -/
def persistAside (fresh : Manifest) : Act Manifest := do
  let held := (← get).manifest
  modify fun w => { w with manifest := fresh }
  ignoring ManifestIo.persist
  let fresh := (← get).manifest
  modify fun w => { w with manifest := held }
  return fresh

/-- Record the list if something was left out of it. -/
def recordDropped (read fresh : Manifest) : Act Manifest :=
  let dropped := read.snapshots.length - fresh.snapshots.length
  if dropped > 0 then persistAside fresh else return fresh

/-- Bring the store back from the remote. Whether there is anything in it. -/
def restoreFromRemote (cfg : Config) : Option Files → Act Bool
  | none => return false
  | some remote => do
    if !(← RemoteSync.restoreManifest remote) then return false
    let listing := remote.names
    RemoteSync.pull remote (listing.filter Path.describesRanks)
    let files := (← get).disk.files
    let read ← returning (Recovery.loadManifest cfg files)
    let fresh ← recordDropped read
      { read with snapshots := Recovery.reachable files listing read.snapshots }
    RemoteSync.pull remote (listing.filter (isWanted cfg fresh))
    modify fun w => { w with manifest := fresh }
    return !fresh.snapshots.isEmpty

section
variable {α : Type} {rank : Nat} {remote : Option Files} {snapId : Uuid} {snapshots : List Snapshot}
  {read : Files → Manifest → Except MoonclipError α} {a : α} {w after : World}

/-- A snapshot and its base, as a load pins them. -/
def wanted (m : Manifest) (snapId : Uuid) : Except MoonclipError (List Snapshot) :=
  match m.findSnapshot snapId with
  | none => .error (.notFound ("Snapshot " ++ uuidText snapId))
  | some snap => .ok (snap :: (snap.baseSnapshotId.bind m.findSnapshot).toList)

/-- Bring down what this rank reads of these snapshots and this disk does not have. A file
the remote does not have either is left to the read. -/
def fetchAbsent (rank : Nat) : Option Files → List Snapshot → Act Unit
  | none, _ => return
  | some remote, snapshots => do
    let files := (← get).disk.files
    let absent := (snapshots.flatMap fun s => s.filesOf (some rank)).filter fun file =>
      (files.find? file).isNone
    absent.forM (RemoteSync.copyFile remote Storage.putExact)

/-- A load: what it needs is fetched, and then read. -/
def fetching (rank : Nat) (remote : Option Files) (snapId : Uuid)
    (read : Files → Manifest → Except MoonclipError α) : Act α := do
  let snapshots ← returning (wanted (← get).manifest snapId)
  fetchAbsent rank remote snapshots
  let w ← get
  returning (read w.disk.files w.manifest)

omit [SerdeJson] in
/-- Fetching changes no list. -/
theorem fetchAbsent_spec {m : Manifest} : Triple (fun w => w.manifest = m) (fetchAbsent rank remote snapshots)
    (fun _ w => w.manifest = m) fun _ w => w.manifest = m := by
  cases remote with
  | none => exact Triple.pure fun _ same => same
  | some remote =>
    refine Triple.get_keep fun w => Triple.forM fun p _ => ?_
    unfold RemoteSync.copyFile
    split
    · exact Storage.putExact_spec (fun _ same => same) fun _ _ same => same
    · exact Triple.pure fun _ same => same

omit [SerdeJson] in
theorem fetching_eq_ok : fetching rank remote snapId read w = .ok a after ↔ ∃ snapshots,
    wanted w.manifest snapId = .ok snapshots ∧ fetchAbsent rank remote snapshots w = .ok () after ∧
      read after.disk.files w.manifest = .ok a := by
  simp only [fetching, Library.Effect.bind_eq_ok, get_eq_ok, returning_eq_ok]
  constructor
  · rintro ⟨_, _, ⟨rfl, rfl⟩, snapshots, _, ⟨found, rfl⟩, _, mid, fetched, _, _, ⟨rfl, rfl⟩, done, rfl⟩
    have same : mid.manifest = w.manifest := fetchAbsent_spec.ok rfl fetched
    exact ⟨snapshots, found, fetched, same ▸ done⟩
  · rintro ⟨snapshots, found, fetched, done⟩
    have same : after.manifest = w.manifest := fetchAbsent_spec.ok rfl fetched
    exact ⟨_, _, ⟨rfl, rfl⟩, snapshots, _, ⟨found, rfl⟩, (), _, fetched, _, _, ⟨rfl, rfl⟩, same ▸ done, rfl⟩

end

end Coordinator
end Moonclip
