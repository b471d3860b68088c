import Moonclip.RetentionProofs
import Moonclip.Snapshots

/-! What a store holds of the archive: on disk, packs and ranks files of snapshots
that were written and an index that names only snapshots whose pack is there; in
memory, a list of the same kind. -/
namespace Moonclip
open Library.Codec Library.Effect Library.Files

/-- Nothing the archive had is changed or lost. -/
def Archive.Extends (a a' : Archive) : Prop := ∀ id k, a id = some k → a' id = some k

theorem Archive.Extends.refl (a : Archive) : a.Extends a := fun _ _ => id

theorem Archive.Extends.trans {a b c : Archive} (first : a.Extends b) (second : b.Extends c) :
    a.Extends c :=
  fun id k kept => second id k (first id k kept)

/-- The archive with one more snapshot. -/
def Archive.add (a : Archive) (k : Kept) : Archive := Function.update a k.id (some k)

theorem Archive.extends_add {a : Archive} {k : Kept} (fresh : a k.id = none) : a.Extends (a.add k) := by
  intro id other kept
  have apart : id ≠ k.id := by
    rintro rfl
    simp [fresh] at kept
  simpa [Archive.add, Function.update_of_ne apart] using kept

@[simp] theorem Archive.add_self {a : Archive} {k : Kept} : a.add k k.id = some k := by
  simp [Archive.add]

theorem Archive.add_eq_some {a : Archive} {k other : Kept} {id : Uuid} (kept : a.add k id = some other) :
    id = k.id ∧ other = k ∨ a id = some other := by
  by_cases same : id = k.id
  · subst same
    exact .inl ⟨rfl, by simpa using kept.symm⟩
  · exact .inr (by simpa [Archive.add, Function.update_of_ne same] using kept)

section
variable [Zstd] [Xxh3] [SerdeJson] {buffers : Set Bytes} {a a' : Archive} {k : Kept}

omit [Zstd] [Xxh3] [SerdeJson] in
theorem Kept.Shaped.extend (shaped : k.Shaped a) (grown : a.Extends a') : k.Shaped a' where
  ranks := shaped.ranks
  rank := shaped.rank
  packed := shaped.packed
  finalized := shaped.finalized
  unpinned := shaped.unpinned
  inPack := shaped.inPack
  base id delta := by
    obtain ⟨b, kept, rest⟩ := shaped.base id delta
    exact ⟨b, grown id b kept, rest⟩
  full := shaped.full

omit [Zstd] [Xxh3] [SerdeJson] in
theorem Kept.Shaped.baseIn_extend (shaped : k.Shaped a) (grown : a.Extends a') :
    k.baseIn a' = k.baseIn a := by
  cases delta : k.snapshot.baseSnapshotId with
  | none => simp [Kept.baseIn, delta]
  | some id =>
    obtain ⟨b, kept, _⟩ := shaped.base id delta
    simp [Kept.baseIn, delta, kept, grown id b kept]

theorem Kept.Sound.extend (sound : k.Sound buffers a) (grown : a.Extends a') : k.Sound buffers a' where
  toShaped := sound.toShaped.extend grown
  readable := by
    rw [sound.toShaped.baseIn_extend grown]
    exact sound.readable
  described := sound.described
  intact := sound.intact

/-- Every snapshot in the archive is where its identifier says, and loads. -/
def Archive.Sound (buffers : Set Bytes) (a : Archive) : Prop :=
  ∀ id k, a id = some k → k.id = id ∧ k.Sound buffers a

theorem Archive.Sound.add (sound : a.Sound buffers) (fresh : a k.id = none) (new : k.Sound buffers a) :
    (a.add k).Sound buffers := by
  intro id other kept
  have grown := Archive.extends_add fresh
  rcases Archive.add_eq_some kept with ⟨rfl, rfl⟩ | before
  · exact ⟨rfl, new.extend grown⟩
  · exact ⟨(sound id other before).1, (sound id other before).2.extend grown⟩

/-- The file a snapshot's ranks are kept in. -/
def RanksText (k : Kept) (bytes : Bytes) : Prop :=
  ∃ text page, SerdeJson.ranks.toVec ⟨k.id, k.snapshot.ranks⟩ = .ok text ∧ bytes = pad page text

/-- What lies under `snapshots/` was written for a snapshot of the archive. -/
structure Housed (a : Archive) (files : Files) : Prop where
  packs : ∀ dir rank bytes, files.find? (.snapshots dir (.rankPack rank)) = some bytes →
    ∃ id k, dir = .uuid id ∧ rank = 0 ∧ a id = some k ∧ bytes = k.pack
  ranks : ∀ dir bytes, files.find? (.snapshots dir .ranksJson) = some bytes →
    ∃ id k, dir = .uuid id ∧ a id = some k ∧ RanksText k bytes
  others : ∀ dir name, files.find? (.snapshots dir (.other name)) = none

/-- A list of snapshots the store can load. -/
structure Listed (a : Archive) (files : Files) (snapshots : List Snapshot) : Prop where
  distinct : Distinct snapshots
  closed : Closed snapshots
  kept : ∀ s ∈ snapshots, ∃ k, a s.id = some k ∧ s.unpinned = k.snapshot ∧
    files.find? k.path = some k.pack

/-- The ranks of every one of `ids` are in a file. -/
def Written (a : Archive) (files : Files) (ids : Finset Uuid) : Prop :=
  ∀ id ∈ ids, ∃ k bytes, a id = some k ∧ files.find? (ranksPath id) = some bytes ∧ RanksText k bytes

/-- The manifest that is on record: what a process opening the store would read. -/
structure OnRecord (a : Archive) (files : Files) (m : Manifest) : Prop where
  listed : Listed a files m.snapshots
  written : Written a files m.ranksWritten
  outOfLine : ∀ s ∈ m.snapshots, s.id ∈ m.ranksWritten
  tidy : ∀ id ∈ m.ranksWritten, ∃ s ∈ m.snapshots, s.id = id
  index : files.find? .manifestJson = none ∧ m.snapshots = [] ∨ ∃ text page,
    SerdeJson.index.toVec (ManifestIo.indexOf m) = .ok text ∧
      files.find? .manifestJson = some (pad page text)

/-- Files from which a store can be opened, with a list of the kind `P` on record. -/
def Safe (a : Archive) (P : List Snapshot → Prop) (files : Files) : Prop :=
  Housed a files ∧ ∃ m, OnRecord a files m ∧ P m.snapshots


end

section
variable [SerdeJson] {a a' : Archive} {k : Kept} {files files' : Files} {snapshots : List Snapshot}
  {ids : Finset Uuid} {m : Manifest} {P Q : List Snapshot → Prop} {p : Path} {bytes : Bytes}

theorem Housed.extend (housed : Housed a files) (grown : a.Extends a') : Housed a' files where
  packs dir rank bytes found := by
    obtain ⟨id, k, same, zero, kept, rest⟩ := housed.packs dir rank bytes found
    exact ⟨id, k, same, zero, grown id k kept, rest⟩
  ranks dir bytes found := by
    obtain ⟨id, k, same, kept, rest⟩ := housed.ranks dir bytes found
    exact ⟨id, k, same, grown id k kept, rest⟩
  others := housed.others

omit [SerdeJson] in
theorem Listed.extend (listed : Listed a files snapshots) (grown : a.Extends a') :
    Listed a' files snapshots where
  distinct := listed.distinct
  closed := listed.closed
  kept s present := by
    obtain ⟨k, kept, rest⟩ := listed.kept s present
    exact ⟨k, grown s.id k kept, rest⟩

theorem Written.extend (written : Written a files ids) (grown : a.Extends a') :
    Written a' files ids := by
  intro id present
  obtain ⟨k, bytes, kept, rest⟩ := written id present
  exact ⟨k, bytes, grown id k kept, rest⟩

theorem OnRecord.extend (recorded : OnRecord a files m) (grown : a.Extends a') :
    OnRecord a' files m where
  listed := recorded.listed.extend grown
  written := recorded.written.extend grown
  outOfLine := recorded.outOfLine
  tidy := recorded.tidy
  index := recorded.index

theorem Safe.extend (safe : Safe a P files) (grown : a.Extends a') : Safe a' P files := by
  obtain ⟨housed, m, recorded, kind⟩ := safe
  exact ⟨housed.extend grown, m, recorded.extend grown, kind⟩

theorem Safe.mono (safe : Safe a P files) (weaker : ∀ l, P l → Q l) : Safe a Q files := by
  obtain ⟨housed, m, recorded, kind⟩ := safe
  exact ⟨housed, m, recorded, weaker _ kind⟩

omit [SerdeJson] in
theorem Listed.id_eq (listed : Listed a files snapshots) {s : Snapshot} (present : s ∈ snapshots) :
    ∃ k, a s.id = some k ∧ k.id = s.id ∧ s.unpinned = k.snapshot ∧
      files.find? (packPath s.id 0) = some k.pack := by
  obtain ⟨k, kept, same, pack⟩ := listed.kept s present
  have id : k.id = s.id := by rw [Kept.id, ← same]; rfl
  exact ⟨k, kept, id, same, by rwa [Kept.path, id] at pack⟩

omit [SerdeJson] in
/-- A list is as good as the packs it names. -/
theorem Listed.congr (listed : Listed a files snapshots)
    (same : ∀ s ∈ snapshots, files'.find? (packPath s.id 0) = files.find? (packPath s.id 0)) :
    Listed a files' snapshots where
  distinct := listed.distinct
  closed := listed.closed
  kept s present := by
    obtain ⟨k, kept, id, alike, pack⟩ := listed.id_eq present
    exact ⟨k, kept, alike, by rw [Kept.path, id, same s present, pack]⟩

theorem Written.congr (written : Written a files ids)
    (same : ∀ id ∈ ids, files'.find? (ranksPath id) = files.find? (ranksPath id)) :
    Written a files' ids := by
  intro id present
  obtain ⟨k, bytes, kept, found, text⟩ := written id present
  exact ⟨k, bytes, kept, by rw [same id present, found], text⟩

theorem OnRecord.congr (recorded : OnRecord a files m)
    (packs : ∀ s ∈ m.snapshots, files'.find? (packPath s.id 0) = files.find? (packPath s.id 0))
    (ranks : ∀ id ∈ m.ranksWritten, files'.find? (ranksPath id) = files.find? (ranksPath id))
    (index : files'.find? .manifestJson = files.find? .manifestJson) : OnRecord a files' m where
  listed := recorded.listed.congr packs
  written := recorded.written.congr ranks
  outOfLine := recorded.outOfLine
  tidy := recorded.tidy
  index := by
    rw [index]
    exact recorded.index

/-- A file that is not under `snapshots/` is nobody's business. -/
theorem Housed.put_root (housed : Housed a files) (root : ∀ dir file, p ≠ .snapshots dir file) :
    Housed a (files.put p bytes) where
  packs dir rank := by
    rw [FileStore.find?_put_of_ne (root _ _).symm]
    exact housed.packs dir rank
  ranks dir := by
    rw [FileStore.find?_put_of_ne (root _ _).symm]
    exact housed.ranks dir
  others dir name := by
    rw [FileStore.find?_put_of_ne (root _ _).symm]
    exact housed.others dir name

theorem Housed.put_pack (housed : Housed a files) (kept : a k.id = some k) :
    Housed a (files.put k.path k.pack) where
  packs dir rank bytes found := by
    rw [FileStore.find?_put] at found
    split at found
    · rename_i same
      simp only [Kept.path, packPath, Path.snapshots.injEq, FileName.rankPack.injEq] at same
      exact ⟨k.id, k, same.1, same.2, kept, by simpa using found.symm⟩
    · exact housed.packs dir rank bytes found
  ranks dir bytes found := by
    rw [FileStore.find?_put_of_ne (by simp [Kept.path, packPath])] at found
    exact housed.ranks dir bytes found
  others dir name := by
    rw [FileStore.find?_put_of_ne (by simp [Kept.path, packPath])]
    exact housed.others dir name

theorem Housed.put_ranks {id : Uuid} (housed : Housed a files) (kept : a id = some k)
    (text : RanksText k bytes) : Housed a (files.put (ranksPath id) bytes) where
  packs dir rank bytes found := by
    rw [FileStore.find?_put_of_ne (by simp [ranksPath])] at found
    exact housed.packs dir rank bytes found
  ranks dir bytes' found := by
    rw [FileStore.find?_put] at found
    split at found
    · rename_i same
      simp only [ranksPath, Path.snapshots.injEq, and_true] at same
      obtain rfl : bytes = bytes' := by simpa using found
      exact ⟨id, k, same, kept, text⟩
    · exact housed.ranks dir bytes' found
  others dir name := by
    rw [FileStore.find?_put_of_ne (by simp [ranksPath])]
    exact housed.others dir name

omit [SerdeJson] in
theorem Listed.perm {after : List Snapshot} (held : Listed a files snapshots)
    (same : after.Perm snapshots) : Listed a files after where
  distinct := (same.map _).nodup_iff.mpr held.distinct
  closed d hd id delta := by
    obtain ⟨b, there, rest⟩ := held.closed d (same.subset hd) id delta
    exact ⟨b, same.symm.subset there, rest⟩
  kept s present := held.kept s (same.subset present)

omit [SerdeJson] in
/-- One more snapshot that was saved may be listed. -/
theorem Listed.push (listed : Listed a files snapshots) (kept : a k.id = some k)
    (pack : files.find? k.path = some k.pack) (free : k.snapshot.pinned = false)
    (fresh : ∀ s ∈ snapshots, s.id ≠ k.id)
    (base : ∀ id, k.snapshot.baseSnapshotId = some id →
      ∃ s ∈ snapshots, s.id = id ∧ s.baseSnapshotId = none) :
    Listed a files (snapshots ++ [k.snapshot]) where
  distinct := by
    have apart : k.snapshot.id ∉ snapshots.map (·.id) := by
      intro there
      obtain ⟨s, present, same⟩ := List.mem_map.mp there
      exact fresh s present same
    simpa [Distinct, List.nodup_append] using ⟨listed.distinct, fun s present => fresh s present⟩
  closed := by
    intro d hd id delta
    rcases List.mem_append.mp hd with before | new
    · obtain ⟨b, there, rest⟩ := listed.closed d before id delta
      exact ⟨b, List.mem_append_left _ there, rest⟩
    · obtain rfl : d = k.snapshot := by simpa using new
      obtain ⟨b, there, rest⟩ := base id delta
      exact ⟨b, List.mem_append_left _ there, rest⟩
  kept s present := by
    rcases List.mem_append.mp present with before | new
    · exact listed.kept s before
    · obtain rfl : s = k.snapshot := by simpa using new
      exact ⟨k, kept, Snapshot.unpinned_of free, pack⟩

omit [SerdeJson] in
/-- A pack that is there already is written again as it was. -/
theorem Listed.put_pack (listed : Listed a files snapshots) (kept : a k.id = some k) :
    Listed a (files.put k.path k.pack) snapshots where
  distinct := listed.distinct
  closed := listed.closed
  kept s present := by
    obtain ⟨other, found, id, alike, pack⟩ := listed.id_eq present
    refine ⟨other, found, alike, ?_⟩
    have path : other.path = packPath s.id 0 := by rw [Kept.path, id]
    rw [path, FileStore.find?_put]
    split
    · rename_i same
      obtain ⟨same, _⟩ := packPath_inj.mp same
      obtain rfl : k = other := by simpa [same, kept] using found
      rfl
    · exact pack

theorem OnRecord.put_pack (recorded : OnRecord a files m) (kept : a k.id = some k) :
    OnRecord a (files.put k.path k.pack) m where
  listed := recorded.listed.put_pack kept
  written := recorded.written.congr fun _ _ =>
    FileStore.find?_put_of_ne (by simp [Kept.path, ranksPath, packPath])
  outOfLine := recorded.outOfLine
  tidy := recorded.tidy
  index := by
    rw [FileStore.find?_put_of_ne (by simp [Kept.path, packPath])]
    exact recorded.index

/-- One of the texts of a snapshot's ranks is as good as another. -/
theorem Written.put_ranks {id : Uuid} (written : Written a files ids) (kept : a id = some k)
    (text : RanksText k bytes) : Written a (files.put (ranksPath id) bytes) ids := by
  intro id' present
  obtain ⟨k', bytes', kept', found, text'⟩ := written id' present
  by_cases same : id' = id
  · subst same
    exact ⟨k, bytes, kept, FileStore.find?_put_self, text⟩
  · exact ⟨k', bytes', kept', by rwa [FileStore.find?_put_of_ne (by simpa using same)], text'⟩

theorem OnRecord.put_ranks {id : Uuid} (recorded : OnRecord a files m) (kept : a id = some k)
    (text : RanksText k bytes) : OnRecord a (files.put (ranksPath id) bytes) m where
  listed := recorded.listed.congr fun _ _ =>
    FileStore.find?_put_of_ne (by simp [ranksPath, packPath])
  written := recorded.written.put_ranks kept text
  outOfLine := recorded.outOfLine
  tidy := recorded.tidy
  index := by
    rw [FileStore.find?_put_of_ne (by simp [ranksPath])]
    exact recorded.index

omit [SerdeJson] in
theorem Listed.delete (listed : Listed a files snapshots)
    (spared : ∀ s ∈ snapshots, p.belongsTo s.id = false) : Listed a (files.delete p) snapshots := by
  refine listed.congr fun s present => FileStore.find?_delete_of_ne ?_
  rintro rfl
  simpa using spared s present

theorem Written.delete (written : Written a files ids) (spared : ∀ id ∈ ids, p.belongsTo id = false) :
    Written a (files.delete p) ids := by
  refine written.congr fun id present => FileStore.find?_delete_of_ne ?_
  rintro rfl
  simpa using spared id present

theorem OnRecord.delete (recorded : OnRecord a files m) (other : p ≠ .manifestJson)
    (spared : ∀ s ∈ m.snapshots, p.belongsTo s.id = false) : OnRecord a (files.delete p) m where
  listed := recorded.listed.delete spared
  written := recorded.written.delete fun id present => by
    obtain ⟨s, listed, rfl⟩ := recorded.tidy id present
    exact spared s listed
  outOfLine := recorded.outOfLine
  tidy := recorded.tidy
  index := by
    rw [FileStore.find?_delete_of_ne other.symm]
    exact recorded.index

theorem Housed.delete (housed : Housed a files) : Housed a (files.delete p) where
  packs dir rank bytes found := housed.packs dir rank bytes (FileStore.find?_of_delete found)
  ranks dir bytes found := housed.ranks dir bytes (FileStore.find?_of_delete found)
  others dir name := by
    have nothing := housed.others dir name
    rw [FileStore.find?_delete]
    split
    · rfl
    · exact nothing

end
end Moonclip
