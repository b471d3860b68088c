import Moonclip.Holding
import Moonclip.RetentionRuns

/-! The storage operations a call is made of, one at a time: after each of them the
files are such that a store can be opened on them. -/
namespace Moonclip
open Library.Codec Library.Effect Library.Files

section
variable [Zstd] [Xxh3] [SerdeJson]

/-- Between two storage operations of a call that began on the files `start`: the
store holds the archive, with the list `now` on record, and whatever a crash would
have left has a list of the kind `P` on record. -/
structure Holding (buffers : Set Bytes) (used : Set Uuid) (a : Archive) (P : List Snapshot → Prop)
    (now : List Snapshot) (start : Files) (w : World) : Prop where
  sound : a.Sound buffers
  ids : ∀ id k, a id = some k → id ∈ used
  bounded : ∀ p body, w.disk.accepts p body = true → body.length < 2 ^ 64
  replayed : w.disk.files = replay w.disk.journal start
  always : Always (Safe a P) start w.disk.journal
  housed : Housed a w.disk.files
  recorded : ∃ m, OnRecord a w.disk.files m ∧ m.snapshots = now
  allowed : P now
  listed : Listed a w.disk.files w.manifest.snapshots
  written : Written a w.disk.files w.manifest.ranksWritten
  source : ∀ r, w.retainedBase = some r → r.snapId ∈ used
  retained : ∀ r, w.retainedBase = some r → ∀ k, a r.snapId = some k → Retains k r.tensors

namespace Holding
variable {buffers : Set Bytes} {used used' : Set Uuid} {a a' : Archive} {k : Kept}
  {P Q : List Snapshot → Prop}
  {now : List Snapshot} {start : Files} {w : World} {p : Path} {body : Bytes} {m : Manifest}

theorem safe (held : Holding buffers used a P now start w) : Safe a P w.disk.files :=
  held.replayed ▸ held.always.last

theorem mono (held : Holding buffers used a P now start w) (weaker : ∀ l, P l → Q l) :
    Holding buffers used a Q now start w :=
  { held with always := fun n => (held.always n).mono weaker, allowed := weaker _ held.allowed }

/-- More identifiers are taken. -/
theorem take (held : Holding buffers used a P now start w) (more : used ⊆ used') :
    Holding buffers used' a P now start w :=
  { held with
    ids := fun id k kept => more (held.ids id k kept)
    source := fun r kept => more (held.source r kept) }

/-- What a call does with pins and claims is not seen here. -/
theorem inFlight (held : Holding buffers used a P now start w) (r : InFlight) :
    Holding buffers used a P now start { w with inFlight := r } :=
  { held with }

/-- The manifest in memory may be any list of the same kind. -/
theorem relist (held : Holding buffers used a P now start w) (listed : Listed a w.disk.files m.snapshots)
    (written : Written a w.disk.files m.ranksWritten) :
    Holding buffers used a P now start { w with manifest := m } :=
  { held with listed := listed, written := written }

theorem retain (held : Holding buffers used a P now start w) {r : RetainedBase}
    (known : r.snapId ∈ used) (retains : ∀ k, a r.snapId = some k → Retains k r.tensors) :
    Holding buffers used a P now start { w with retainedBase := some r } :=
  { held with
    source := fun r' same => by
      obtain rfl : r = r' := by simpa using same
      exact known
    retained := fun r' same => by
      obtain rfl : r = r' := by simpa using same
      exact retains }

/-- The archive grows: nothing that was held is lost. -/
theorem extend (held : Holding buffers used a P now start w) (grown : a.Extends a')
    (sound : a'.Sound buffers) (ids : ∀ id k, a' id = some k → id ∈ used)
    (retained : ∀ r, w.retainedBase = some r → ∀ k, a' r.snapId = some k → Retains k r.tensors) :
    Holding buffers used a' P now start w where
  sound := sound
  ids := ids
  source := held.source
  bounded := held.bounded
  replayed := held.replayed
  always n := (held.always n).extend grown
  housed := held.housed.extend grown
  recorded := by
    obtain ⟨m, recorded, same⟩ := held.recorded
    exact ⟨m, recorded.extend grown, same⟩
  allowed := held.allowed
  listed := held.listed.extend grown
  written := held.written.extend grown
  retained := retained

/-- One more change to the files. -/
theorem change (held : Holding buffers used a P now start w) {c : Change Path Bytes} {after : List Snapshot}
    (housed : Housed a (c.apply w.disk.files))
    (recorded : ∃ m, OnRecord a (c.apply w.disk.files) m ∧ m.snapshots = after)
    (allowed : P after) (listed : Listed a (c.apply w.disk.files) w.manifest.snapshots)
    (written : Written a (c.apply w.disk.files) w.manifest.ranksWritten) :
    Holding buffers used a P after start { w with disk := w.disk.change c } where
  sound := held.sound
  ids := held.ids
  source := held.source
  bounded := held.bounded
  replayed := by rw [Disk.files_change, Disk.journal_change, replay_snoc, ← held.replayed]
  always := by
    obtain ⟨m, recorded, rfl⟩ := recorded
    refine Always.snoc held.always ?_
    rw [replay_snoc, ← held.replayed]
    exact ⟨housed, m, recorded, allowed⟩
  housed := housed
  recorded := recorded
  allowed := allowed
  listed := listed
  written := written
  retained := held.retained

theorem put_root (held : Holding buffers used a P now start w) (root : ∀ dir file, p ≠ .snapshots dir file)
    (other : p ≠ .manifestJson) :
    Holding buffers used a P now start { w with disk := w.disk.change (.put p body) } := by
  have keeps : ∀ dir file, (w.disk.files.put p body).find? (.snapshots dir file) =
      w.disk.files.find? (.snapshots dir file) :=
    fun dir file => FileStore.find?_put_of_ne (root dir file).symm
  obtain ⟨m, recorded, same⟩ := held.recorded
  exact held.change (held.housed.put_root root)
    ⟨m, recorded.congr (fun s _ => keeps _ _) (fun s _ => keeps _ _)
      (FileStore.find?_put_of_ne other.symm), same⟩ held.allowed
    (held.listed.congr fun s _ => keeps _ _) (held.written.congr fun s _ => keeps _ _)

/-- The pack of a snapshot of the archive goes down. -/
theorem put_pack (held : Holding buffers used a P now start w) (kept : a k.id = some k) :
    Holding buffers used a P now start { w with disk := w.disk.change (.put k.path k.pack) } := by
  obtain ⟨m, recorded, same⟩ := held.recorded
  refine held.change (held.housed.put_pack kept) ⟨m, recorded.put_pack kept, same⟩ held.allowed
    (held.listed.put_pack kept) (held.written.congr fun _ _ => ?_)
  exact FileStore.find?_put_of_ne (by simp [Kept.path, ranksPath, packPath])

theorem put_ranks (held : Holding buffers used a P now start w) {id : Uuid} (kept : a id = some k)
    (text : RanksText k body) :
    Holding buffers used a P now start { w with disk := w.disk.change (.put (ranksPath id) body) } := by
  obtain ⟨m, recorded, same⟩ := held.recorded
  refine held.change (held.housed.put_ranks kept text) ⟨m, recorded.put_ranks kept text, same⟩
    held.allowed (held.listed.congr fun _ _ => ?_) (held.written.put_ranks kept text)
  exact FileStore.find?_put_of_ne (by simp [ranksPath, packPath])

/-- The index of the manifest in memory goes down, and is what is on record. -/
theorem put_index (held : Holding buffers used a P now start w) {text : Bytes} (page : Nat)
    (allowed : P w.manifest.snapshots)
    (outOfLine : ∀ s ∈ w.manifest.snapshots, s.id ∈ w.manifest.ranksWritten)
    (tidy : ∀ id ∈ w.manifest.ranksWritten, ∃ s ∈ w.manifest.snapshots, s.id = id)
    (encoded : SerdeJson.index.toVec (ManifestIo.indexOf w.manifest) = .ok text) :
    Holding buffers used a P w.manifest.snapshots start
      { w with disk := w.disk.change (.put .manifestJson (pad page text)) } := by
  have keeps : ∀ dir file, (w.disk.files.put .manifestJson (pad page text)).find? (.snapshots dir file) =
      w.disk.files.find? (.snapshots dir file) :=
    fun dir file => FileStore.find?_put_of_ne nofun
  have listed : Listed a (w.disk.files.put .manifestJson (pad page text)) w.manifest.snapshots :=
    held.listed.congr fun s _ => keeps _ _
  have written : Written a (w.disk.files.put .manifestJson (pad page text)) w.manifest.ranksWritten :=
    held.written.congr fun s _ => keeps _ _
  exact held.change (held.housed.put_root nofun)
    ⟨w.manifest, ⟨listed, written, outOfLine, tidy, .inr ⟨text, page, encoded, FileStore.find?_put_self⟩⟩,
      rfl⟩ allowed listed written

/-- A file in no listed snapshot's directory goes. -/
theorem delete (held : Holding buffers used a P now start w) (other : p ≠ .manifestJson)
    (spared : ∀ s ∈ now, p.belongsTo s.id = false)
    (unlisted : ∀ s ∈ w.manifest.snapshots, p.belongsTo s.id = false)
    (unwritten : ∀ id ∈ w.manifest.ranksWritten, p.belongsTo id = false) :
    Holding buffers used a P now start { w with disk := w.disk.change (.delete p) } := by
  obtain ⟨m, recorded, rfl⟩ := held.recorded
  exact held.change held.housed.delete ⟨m, recorded.delete other spared, rfl⟩ held.allowed
    (held.listed.delete unlisted) (held.written.delete unwritten)

end Holding
end
end Moonclip
