import Moonclip.Coordinator

/-! Putting a store back together when it is opened: read the manifest, then
admitting the complete snapshots it lost and delete what cannot be rebuilt. -/
namespace Moonclip
open Library.Codec Library.Effect

/-- The order hash maps hand out what they hold in: the directories, and the ranks of a
snapshot. -/
structure Enumeration where
  order : List Directory → List Directory
  perm : ∀ dirs, (order dirs).Perm dirs
  values : List RankEntry → List RankEntry
  shuffled : ∀ entries, (values entries).Perm entries

namespace Recovery

section
variable [SerdeJson]

/-- The description one pack carries, if it is a pack of this directory. -/
def descriptorOf (files : Files) (dir : Directory) (pack : Path) : Option PackDescriptor := do
  let header ← (Storage.getRange files pack 0 Pack.headerLen).toOption
  let (offset, length) ← Pack.decodeHeader header
  let encoded ← (Storage.getRange files pack offset length).toOption
  if encoded.length ≠ length then none
  else
    let descriptor ← (SerdeJson.descriptor.fromSlice encoded).toOption
    if dir = .uuid descriptor.snapshotId then some descriptor else none

/-- `ends_with(".pack")` of a snapshot's files; no identifier ends like that. -/
def isPack : Path → Bool
  | .snapshots _ file => file.isPack
  | _ => false

/-- Rebuild a snapshot from the descriptions its own packs carry. -/
def rebuildFromPacks (files : Files) (dir : Directory) (dirFiles : List Path) : Option Snapshot := do
  let descriptors ← (dirFiles.filter isPack).mapM (descriptorOf files dir)
  let first ← descriptors.head?
  let ranks : RankMap := .ofList (descriptors.map fun d => (d.rank.rank, d.rank))
  if ranks.size ≠ first.worldSize then none
  else some {
    id := first.snapshotId
    step := first.step
    createdAt := first.createdAt
    ranks := ranks
    baseSnapshotId := first.baseSnapshotId
    metadata := first.metadata
    compression := first.compression
    finalized := true
    pinned := false }

variable [Xxh3]

def tensorIsIntact (files : Files) (packFile : Option Path) (tensor : TensorEntry) : Bool :=
  match tensor.hashCompressed with
  | none => true
  | some expected =>
    let read := match packFile, tensor.filename with
      | some pack, _ => (Storage.getRange files pack tensor.offset tensor.compressedSize).toOption
      | none, some file => (Storage.get files file).toOption
      | none, none => none
    match read with
    | none => false
    | some bytes => bytes.length == tensor.compressedSize && hashHex bytes == expected

/-- Whether every byte the snapshot claims is present and intact. -/
def snapshotDataIsIntact (files : Files) (snapshot : Snapshot) : Bool :=
  snapshot.ranks.toList.all fun (_, entry) =>
    entry.tensors.all (tensorIsIntact files entry.packFile)

/-- A name that reads as an identifier, and is none of a listed snapshot. -/
def isOrphan (m : Manifest) : Directory → Bool
  | .uuid id => !m.snapshots.any (·.id == id)
  | .variant _ => true
  | .foreign _ => false

/-- The first names behind `snapshots/` that nothing in the manifest goes by. What does
not read as an identifier was put there by somebody else. -/
def orphanDirs (files : Files) (m : Manifest) : List Directory :=
  ((Storage.listSnapshots files).filterMap fun
    | .snapshots dir _ | .loose dir => if isOrphan m dir then some dir else none
    | _ => none).dedup

def filesIn (files : Files) (dir : Directory) :
    List Path := (Storage.listSnapshots files).filter (Path.under dir)

/-- What an orphan directory holds: a complete snapshot, or nothing to save. -/
def candidateOf (files : Files) (dir : Directory) : Option Snapshot :=
  (rebuildFromPacks files dir (filesIn files dir)).filter (snapshotDataIsIntact files)

/-- Admit the candidates in order; a delta whose base is not listed is rejected. -/
def admitting : List Snapshot → List Snapshot → List Snapshot × List Directory
  | listed, [] => (listed, [])
  | listed, c :: rest =>
    if c.baseSnapshotId.all fun base => listed.any (·.id == base) then admitting (listed ++ [c]) rest
    else
      let (listed, rejects) := admitting listed rest
      (listed, .uuid c.id :: rejects)

/-- Whether something that panics is come to before what ends the search. -/
def comesTo {α : Type} (bad goesOn : α → Bool) : List α → Bool
  | [] => false
  | a :: rest => bad a || goesOn a && comesTo bad goesOn rest

/-- Whether it is a panic to read what a pack says of itself: its header says how long. -/
def descriptorPanics (files : Files) (pack : Path) : Bool :=
  match (Storage.getRange files pack 0 Pack.headerLen).toOption.bind Pack.decodeHeader with
  | some (offset, length) => panics (Storage.getRange files pack offset length)
  | none => false

def tensorPanics (files : Files) (packFile : Option Path) (tensor : TensorEntry) : Bool :=
  match tensor.hashCompressed, packFile with
  | some _, some pack => panics (Storage.getRange files pack tensor.offset tensor.compressedSize)
  | _, _ => false

def snapshotPanics (e : Enumeration) (files : Files) (snapshot : Snapshot) : Bool :=
  comesTo (fun (pack, tensor) => tensorPanics files pack tensor)
    (fun (pack, tensor) => tensorIsIntact files pack tensor)
    ((e.values (snapshot.ranks.toList.map Prod.snd)).flatMap fun entry =>
      entry.tensors.map fun tensor => (entry.packFile, tensor))

/-- Whether looking into an orphan directory panics: a length that a pack names is one no
buffer can have. -/
def candidatePanics (e : Enumeration) (files : Files) (dir : Directory) : Bool :=
  comesTo (descriptorPanics files) (fun pack => (descriptorOf files dir pack).isSome)
      ((filesIn files dir).filter isPack) ||
    (rebuildFromPacks files dir (filesIn files dir)).any (snapshotPanics e files)

section
variable {e : Enumeration} {files : Files} {dir : Directory} {pack : Path} {d : PackDescriptor}
  {packFile : Option Path} {tensor : TensorEntry} {s : Snapshot}

omit [SerdeJson] [Xxh3] in
theorem comesTo_eq_false {α : Type} {bad goesOn : α → Bool} {items : List α}
    (none : ∀ a ∈ items, bad a = false) :
    comesTo bad goesOn items = false := by
  induction items with
  | nil => rfl
  | cons a rest ih => simp [comesTo, none a (by simp), ih fun b there => none b (by simp [there])]

omit [SerdeJson] [Xxh3] in
/-- The header of such a pack names a length no buffer can have. -/
theorem descriptorPanics_iff : descriptorPanics files pack = true ↔ ∃ data offset length,
    files.find? pack = some data ∧ Pack.decodeHeader (data.take Pack.headerLen) = some (offset, length) ∧
      ¬(Storage.maxOffset < offset ∧ data.length < offset) ∧
        Storage.maxCapacity < length ∧ data.length < length := by
  unfold descriptorPanics
  cases found : files.find? pack with
  | none => simp [Storage.getRange_absent found, Except.toOption]
  | some data =>
    have header : Storage.getRange files pack 0 Pack.headerLen = .ok (data.take Pack.headerLen) :=
      Storage.getRange_of_le found (Nat.zero_le _) (le_max_of_le_left (by decide))
    rw [header]
    cases decoded : Pack.decodeHeader (data.take Pack.headerLen) with
    | none => simp [Except.toOption, decoded]
    | some body =>
      obtain ⟨offset, length⟩ := body
      simp [Except.toOption, decoded, Storage.panics_getRange, found]

omit [Xxh3] in
/-- A pack that was read did not panic. -/
theorem descriptorPanics_of_some (described : descriptorOf files dir pack = some d) :
    descriptorPanics files pack = false := by
  simp only [descriptorOf, Option.bind_eq_bind, Option.bind_eq_some_iff] at described
  obtain ⟨header, head, ⟨offset, length⟩, decoded, encoded, text, _⟩ := described
  rw [Library.Outcome.toOption_eq_some] at text
  simp only [descriptorPanics, head, Option.bind_some, decoded, text]
  rfl

omit [SerdeJson] in
theorem tensorPanics_of_intact (intact : tensorIsIntact files packFile tensor = true) :
    tensorPanics files packFile tensor = false := by
  unfold tensorPanics
  split
  · rename_i expected pack hashed
    cases read : Storage.getRange files pack tensor.offset tensor.compressedSize with
    | ok bytes => rfl
    | error err => simp [tensorIsIntact, hashed, read, Except.toOption] at intact
  · rfl

omit [SerdeJson] in
theorem snapshotPanics_of_intact (intact : snapshotDataIsIntact files s = true) :
    snapshotPanics e files s = false := by
  refine comesTo_eq_false fun held there => ?_
  obtain ⟨entry, rank, there⟩ := List.mem_flatMap.mp there
  obtain ⟨tensor, listed, rfl⟩ := List.mem_map.mp there
  obtain ⟨item, ranked, rfl⟩ := List.mem_map.mp ((e.shuffled _).subset rank)
  have whole := List.all_eq_true.mp intact item ranked
  exact tensorPanics_of_intact (List.all_eq_true.mp whole tensor listed)

end

def byStep (snapshots : List Snapshot) : List Snapshot :=
  snapshots.insertionSort fun a b => a.step ≤ b.step

/-- Recover snapshot data no manifest entry refers to, or delete it. Returns
whether the manifest changed. Every orphan is looked into before anything is changed. -/
def recoverOrReclaimOrphans (e : Enumeration) : Act Bool := do
  let w ← get
  let files := w.disk.files
  let orphans := e.order (orphanDirs files w.manifest)
  if orphans.any (candidatePanics e files) then throw (.panicked "capacity overflow")
  else
    let candidates := orphans.filterMap (candidateOf files)
    let (listed, dangling) := admitting w.manifest.snapshots (byStep candidates)
    let rejects := orphans.filter (fun dir => (candidateOf files dir).isNone) ++ dangling
    let recovered := decide (w.manifest.snapshots.length < listed.length)
    let snapshots := if recovered then byStep listed else listed
    modify fun w => { w with manifest := { w.manifest with snapshots := snapshots } }
    (rejects.flatMap (filesIn files)).forM Storage.delete
    return recovered

end

variable [SerdeJson]

def loadManifest (cfg : Config) (files : Files) : Except MoonclipError Manifest := do
  match ← ManifestIo.load files none with
  | some manifest => return manifest
  | none => return { Manifest.default with
      worldSize := cfg.worldSize, retention := cfg.retention, lineage := cfg.lineage }

/-- Open a store: only rank 0 recovers, and a recovered snapshot is recorded at
once. Nothing of the process before is left but the files. -/
def openStore [Xxh3] (cfg : Config) (e : Enumeration) : Act Unit := do
  let m ← returning (loadManifest cfg (← get).disk.files)
  modify fun w => { w with manifest := m, retainedBase := none, inFlight := .default }
  if cfg.rank = 0 then
    if ← recoverOrReclaimOrphans e then ignoring ManifestIo.persist

end Recovery
end Moonclip
