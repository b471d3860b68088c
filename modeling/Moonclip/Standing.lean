import Moonclip.Assembly
import Moonclip.Loading
import Moonclip.Restoring

/-! An index that names only what is there, whatever a crash cuts off: each snapshot's
files lie in its own directory, its base is listed, and its ranks read back to packs
that stand. -/
namespace Moonclip
open Library.Codec Library.Effect Library.Files Library.Outcome

/-- The files a map of ranks names. -/
def RankMap.files (ranks : RankMap) : List Path := ranks.toList.flatMap (·.2.paths)

/-- A full tensor's entry tells the hash of the bytes stored for it. -/
def TensorEntry.Sealed (e : TensorEntry) : Prop := e.storage = .full → e.hashCompressed.isSome = true

/-- One pack and no files of its own: all a save or a merge ever writes for a rank. -/
structure RankEntry.Packed (entry : RankEntry) (id : Uuid) (rank : Nat) : Prop where
  pack : entry.packFile = some (packPath id rank)
  inPack : ∀ e ∈ entry.tensors, e.filename = none
  seals : ∀ e ∈ entry.tensors, e.Sealed

theorem RankEntry.Packed.paths {entry : RankEntry} {id : Uuid} {rank : Nat} (packed : entry.Packed id rank) :
    entry.paths = [packPath id rank] := by
  have none : entry.tensors.filterMap (·.filename) = [] :=
    List.filterMap_eq_nil_iff.mpr packed.inPack
  simp [RankEntry.paths, packed.pack, none]

/-- Each rank has its pack, in the directory of `id`, and it is there. -/
def Standing (files : Files) (id : Uuid) (ranks : RankMap) : Prop :=
  ∀ e ∈ ranks.toList, ∃ rank, e.2.Packed id rank ∧ (files.find? (packPath id rank)).isSome = true

theorem Snapshot.filesOf_eq (s : Snapshot) : s.filesOf none = s.ranks.files := by
  have all : (s.ranks.toList.filter fun entry => (none : Option Nat).all (entry.1 == ·)) = s.ranks.toList :=
    List.filter_eq_self.mpr fun _ _ => rfl
  rw [Snapshot.filesOf, all]
  rfl

theorem Path.belongsTo_unique {p : Path} {id id' : Uuid} (one : p.belongsTo id = true)
    (two : p.belongsTo id' = true) : id = id' := by
  cases p with
  | snapshots dir file =>
    obtain rfl : dir = .uuid id := by simpa [Path.belongsTo] using one
    simpa [Path.belongsTo] using two
  | _ => simp [Path.belongsTo] at one

section
variable {files files' : Files} {id id' : Uuid} {ranks : RankMap} {p : Path} {bytes : Bytes}

/-- What its ranks name is there, and in its directory. -/
theorem Standing.file (stands : Standing files id ranks) (named : p ∈ ranks.files) :
    p.belongsTo id = true ∧ (files.find? p).isSome = true := by
  obtain ⟨e, listed, named⟩ := List.mem_flatMap.mp named
  obtain ⟨rank, packed, there⟩ := stands e listed
  rw [packed.paths, List.mem_singleton] at named
  subst named
  exact ⟨by simp, there⟩

theorem Standing.mono (stands : Standing files id ranks)
    (grown : ∀ p, (files.find? p).isSome = true → (files'.find? p).isSome = true) :
      Standing files' id ranks := by
  intro e listed
  obtain ⟨rank, packed, there⟩ := stands e listed
  exact ⟨rank, packed, grown _ there⟩

theorem isSome_put (there : (files.find? p).isSome = true) {k : Path} :
    ((files.put k bytes).find? p).isSome = true := by
  rw [FileStore.find?_put]
  split
  · rfl
  · exact there

theorem Standing.put (stands : Standing files id ranks) : Standing (files.put p bytes) id ranks :=
  stands.mono fun _ there => isSome_put there

/-- Another snapshot's file is nothing to it. -/
theorem Standing.delete (stands : Standing files id ranks) (other : p.belongsTo id = false) :
    Standing (files.delete p) id ranks := by
  intro e listed
  obtain ⟨rank, packed, there⟩ := stands e listed
  refine ⟨rank, packed, ?_⟩
  have apart : packPath id rank ≠ p := by
    rintro rfl
    simp at other
  rwa [FileStore.find?_delete_of_ne apart]

theorem Standing.empty : Standing files id ∅ := by
  rintro ⟨r, entry⟩ listed
  have found := Std.ExtTreeMap.mem_toList_iff_getElem?_eq_some.mp listed
  simp at found

/-- Entries whose packs are there. -/
theorem standing_ofList {entries : List (Nat × RankEntry)}
    (each : ∀ e ∈ entries, ∃ rank, e.2.Packed id rank ∧ (files.find? (packPath id rank)).isSome = true) :
    Standing files id (.ofList entries) := by
  rintro ⟨r, entry⟩ listed
  have found := Std.ExtTreeMap.mem_toList_iff_getElem?_eq_some.mp listed
  exact each _ (Library.Tables.mem_of_getElem?_ofList found)

end

/-- Identifiers, each with the base it was drawn against. -/
abbrev Drawn := List (Uuid × Option Uuid)

/-- A list that names each snapshot once, each as it was drawn, each delta with its
base. -/
structure Lists (drawn : Drawn) (l : List Snapshot) : Prop where
  distinct : Distinct l
  closed : Closed l
  known : ∀ s ∈ l, (s.id, s.baseSnapshotId) ∈ drawn

section
variable {drawn drawn' : Drawn} {l : List Snapshot} {s : Snapshot}

theorem Lists.mem_drawn (lists : Lists drawn l) (listed : s ∈ l) : s.id ∈ drawn.map (·.1) :=
  List.mem_map.mpr ⟨_, lists.known s listed, rfl⟩

theorem Lists.mono (lists : Lists drawn l) (more : ∀ d ∈ drawn, d ∈ drawn') : Lists drawn' l :=
  { lists with known := fun s listed => more _ (lists.known s listed) }

/-- Only identifiers and bases are looked at. -/
theorem Lists.map {f : Snapshot → Snapshot} (lists : Lists drawn l) (id : ∀ s, (f s).id = s.id)
    (base : ∀ s, (f s).baseSnapshotId = s.baseSnapshotId) : Lists drawn (l.map f) where
  distinct := by simpa [Distinct, Function.comp_def, id] using lists.distinct
  closed d listed b delta := by
    obtain ⟨t, there, rfl⟩ := List.mem_map.mp listed
    obtain ⟨u, present, same, full⟩ := lists.closed t there b (base t ▸ delta)
    exact ⟨f u, List.mem_map_of_mem present, (id u).trans same, (base u).trans full⟩
  known s listed := by
    obtain ⟨t, there, rfl⟩ := List.mem_map.mp listed
    rw [id, base]
    exact lists.known t there

theorem Lists.sync {m : Manifest} {steps : Option (List Nat)} (lists : Lists drawn m.snapshots) :
    Lists drawn (m.syncPins steps).snapshots := by
  obtain ⟨flag, flagged⟩ := Manifest.syncPins_eq_map m steps
  rw [flagged]
  exact lists.map (fun _ => rfl) fun _ => rfl

theorem Lists.retain {m : Manifest} (lists : Lists drawn m.snapshots) :
    Lists drawn (Retention.retain m).1.snapshots where
  distinct := Retention.retain_distinct lists.distinct
  closed := Retention.retain_closed lists.distinct lists.closed
  known s left := lists.known s (Retention.retain_sublist.subset left)

theorem Lists.push (lists : Lists drawn l) (known : (s.id, s.baseSnapshotId) ∈ drawn)
    (fresh : ∀ t ∈ l, t.id ≠ s.id)
    (based : ∀ base, s.baseSnapshotId = some base → ∃ b ∈ l, b.id = base ∧ b.baseSnapshotId = none) :
    Lists drawn (l ++ [s]) where
  distinct := by
    simpa [Distinct, List.nodup_append] using ⟨lists.distinct, fresh⟩
  closed d listed base delta := by
    have there : ∃ b ∈ l, b.id = base ∧ b.baseSnapshotId = none := by
      rcases List.mem_append.mp listed with before | new
      · exact lists.closed d before base delta
      · obtain rfl := List.mem_singleton.mp new
        exact based base delta
    obtain ⟨b, present, rest⟩ := there
    exact ⟨b, List.mem_append_left _ present, rest⟩
  known t listed := by
    rcases List.mem_append.mp listed with before | new
    · exact lists.known t before
    · obtain rfl := List.mem_singleton.mp new
      exact known

end

namespace ManifestIo
variable [SerdeJson]

/-- The same as snapshots, without their ranks. -/
def recorded (files : Files) : List Snapshot := (heads files).map (snapshotOf · ∅)

/-- A file of ranks that can be read, of packs that stand. -/
def Reads (files : Files) (id : Uuid) (text : Bytes) : Prop :=
  ∃ ranks, SerdeJson.ranks.fromSlice (trimZeros text) = .ok ⟨id, ranks⟩ ∧ Standing files id ranks

section
variable {files files' : Files} {id : Uuid} {text body : Bytes} {p : Path}

theorem recorded_congr (same : files'.find? .manifestJson = files.find? .manifestJson) :
    recorded files' = recorded files := by
  rw [recorded, heads_congr same, recorded]

theorem recorded_index [LawfulSerdeJson] {m : Manifest} {page : Nat}
    (encoded : SerdeJson.index.toVec (indexOf m) = .ok text)
    (found : files.find? .manifestJson = some (pad page text)) :
    recorded files = m.snapshots.map Snapshot.bare := by
  simp only [recorded, heads_index encoded found, List.map_map]
  rfl

theorem Reads.mono (reads : Reads files id text)
    (grown : ∀ p, (files.find? p).isSome = true → (files'.find? p).isSome = true) : Reads files' id text := by
  obtain ⟨ranks, decoded, stands⟩ := reads
  exact ⟨ranks, decoded, stands.mono grown⟩

theorem Reads.delete (reads : Reads files id text) (other : p.belongsTo id = false) :
    Reads (files.delete p) id text := by
  obtain ⟨ranks, decoded, stands⟩ := reads
  exact ⟨ranks, decoded, stands.delete other⟩

theorem reads_ranks [LawfulSerdeJson] {ranks : RankMap} {page : Nat}
    (encoded : SerdeJson.ranks.toVec ⟨id, ranks⟩ = .ok text) (stands : Standing files id ranks) :
    Reads files id (pad page text) := by
  refine ⟨ranks, ?_, stands⟩
  rw [trimZeros_pad (LawfulSerdeJson.ranks.closed encoded)]
  exact LawfulSerdeJson.ranks.roundTrip encoded

end

/-- What a run of changes to an empty disk leaves: an index each of whose snapshots has
its base listed and every file it names; and of each, every text its ranks were ever
written as is as good as any other. -/
structure Sane (drawn : Drawn) (changes : List (Change Path Bytes)) : Prop where
  lists : Lists drawn (recorded (replay changes .empty))
  ranks : ∀ h ∈ heads (replay changes .empty), ∀ p, h.ranksFile = some p →
    p = ranksPath h.id ∧ ((replay changes .empty).find? p).isSome = true
  inline : ∀ h ∈ heads (replay changes .empty), ∀ ranks, h.ranks = some ranks →
    Standing (replay changes .empty) h.id ranks
  texts : ∀ h ∈ heads (replay changes .empty), ∀ text, .put (ranksPath h.id) text ∈ changes →
    Reads (replay changes .empty) h.id text

namespace Sane
variable {drawn drawn' : Drawn} {changes : List (Change Path Bytes)} {p : Path} {body : Bytes}

theorem empty : Sane drawn [] := by
  have nothing : heads (replay ([] : List (Change Path Bytes)) .empty) = [] := rfl
  constructor
  · rw [recorded, nothing]
    exact ⟨by simp [Distinct], by simp [Closed], by simp⟩
  all_goals
    rw [nothing]
    simp

theorem mono (sane : Sane drawn changes) (more : ∀ d ∈ drawn, d ∈ drawn') : Sane drawn' changes :=
  { sane with lists := sane.lists.mono more }

/-- An index of a list whose files stand. -/
theorem index [LawfulSerdeJson] {m : Manifest} {page : Nat} {text : Bytes}
    (encoded : SerdeJson.index.toVec (indexOf m) = .ok text)
    (found : (replay changes .empty).find? .manifestJson = some (pad page text))
    (lists : Lists drawn m.snapshots)
    (stands : ∀ s ∈ m.snapshots, Standing (replay changes .empty) s.id s.ranks)
    (written : ∀ s ∈ m.snapshots, s.id ∈ m.ranksWritten →
      ((replay changes .empty).find? (ranksPath s.id)).isSome = true)
    (texts : ∀ s ∈ m.snapshots, ∀ text, .put (ranksPath s.id) text ∈ changes →
      Reads (replay changes .empty) s.id text) : Sane drawn changes := by
  have named : ∀ h ∈ heads (replay changes .empty), ∃ s ∈ m.snapshots, headOf m.ranksWritten s = h := by
    rw [heads_index encoded found]
    exact fun h => List.mem_map.mp
  constructor
  · rw [recorded_index encoded found]
    exact lists.map (fun _ => rfl) fun _ => rfl
  · intro h listed p file
    obtain ⟨s, there, rfl⟩ := named h listed
    by_cases out : s.id ∈ m.ranksWritten
    · obtain rfl : ranksPath s.id = p := by simpa [Head.ranksFile, headOf, out] using file
      exact ⟨rfl, written s there out⟩
    · simp [Head.ranksFile, headOf, out] at file
  · intro h listed ranks inline
    obtain ⟨s, there, rfl⟩ := named h listed
    obtain ⟨_, rfl⟩ : s.id ∉ m.ranksWritten ∧ s.ranks = ranks := by simpa [headOf] using inline
    exact stands s there
  · intro h listed
    obtain ⟨s, there, rfl⟩ := named h listed
    exact texts s there

/-- A file other than the index goes down. -/
theorem put (sane : Sane drawn changes) (other : p ≠ .manifestJson)
    (reads : ∀ h ∈ heads (replay changes .empty), p = ranksPath h.id →
      Reads (replay changes .empty) h.id body) : Sane drawn (changes ++ [.put p body]) := by
  have same : heads (replay (changes ++ [.put p body]) .empty) = heads (replay changes .empty) := by
    refine heads_congr ?_
    rw [replay_snoc]
    exact FileStore.find?_put_of_ne other.symm
  have grown : ∀ k, ((replay changes .empty).find? k).isSome = true →
      ((replay (changes ++ [.put p body]) .empty).find? k).isSome = true := by
    intro k there
    rw [replay_snoc]
    exact isSome_put there
  constructor
  · rw [recorded, same]
    exact sane.lists
  · intro h listed k named
    rw [same] at listed
    obtain ⟨own, there⟩ := sane.ranks h listed k named
    exact ⟨own, grown k there⟩
  · intro h listed ranks inline
    rw [same] at listed
    exact (sane.inline h listed ranks inline).mono grown
  · intro h listed text written
    rw [same] at listed
    rcases List.mem_append.mp written with before | new
    · exact (sane.texts h listed text before).mono grown
    · simp only [List.mem_singleton, Change.put.injEq] at new
      obtain ⟨rfl, rfl⟩ := new
      exact (reads h listed rfl).mono grown

/-- A file of no listed snapshot goes. -/
theorem delete (sane : Sane drawn changes) (other : p ≠ .manifestJson)
    (spared : ∀ h ∈ heads (replay changes .empty), p.belongsTo h.id = false) :
    Sane drawn (changes ++ [.delete p]) := by
  have after : replay (changes ++ [.delete p]) .empty = (replay changes .empty).delete p := replay_snoc
  have same : heads (replay (changes ++ [.delete p]) .empty) = heads (replay changes .empty) := by
    refine heads_congr ?_
    rw [after]
    exact FileStore.find?_delete_of_ne other.symm
  constructor
  · rw [recorded, same]
    exact sane.lists
  · intro h listed k named
    rw [same] at listed
    obtain ⟨rfl, there⟩ := sane.ranks h listed k named
    refine ⟨rfl, ?_⟩
    have apart : ranksPath h.id ≠ p := by
      rintro rfl
      simpa using spared h listed
    rwa [after, FileStore.find?_delete_of_ne apart]
  · intro h listed ranks inline
    rw [same] at listed
    rw [after]
    exact (sane.inline h listed ranks inline).delete (spared h listed)
  · intro h listed text written
    rw [same] at listed
    rw [after]
    exact (sane.texts h listed text (by simpa using written)).delete (spared h listed)

/-- Every snapshot of the index can be listed again from the disk, whole. -/
theorem listed (sane : Sane drawn changes) {h : Head} (named : h ∈ heads (replay changes .empty)) :
    ∃ s, listedAs (replay changes .empty) h = some s ∧ Standing (replay changes .empty) s.id s.ranks := by
  unfold listedAs
  cases inline : h.ranks with
  | some ranks => exact ⟨_, rfl, sane.inline h named ranks inline⟩
  | none =>
    cases out : h.ranksIn with
    | none => exact ⟨_, rfl, Standing.empty⟩
    | some p =>
      obtain ⟨rfl, there⟩ := sane.ranks h named p (by simp [Head.ranksFile, inline, out])
      obtain ⟨text, found⟩ := Option.isSome_iff_exists.mp there
      obtain ⟨ranks, decoded, stands⟩ := sane.texts h named text (put_of_replay found)
      refine ⟨snapshotOf h ranks, ?_, stands⟩
      simp [readRanks, Storage.get, found, decoded, Except.toOption]

end Sane
end ManifestIo
end Moonclip
