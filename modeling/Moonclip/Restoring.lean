import Moonclip.Remote
import Moonclip.RetentionRuns
import Moonclip.NewestKept

/-! What a restore leaves: of the index that was found, what is whole in the two
places together, and on this disk what a resume reads of it. -/
namespace Moonclip
open Library.Effect Library.Files Library.Outcome

/-- The file an index puts this snapshot's ranks in. -/
def Head.ranksFile (h : Head) : Option Path := if h.ranks.isSome then none else h.ranksIn

namespace ManifestIo
variable [SerdeJson]

/-- What a head stands for with its ranks read from `files`, if they can be. -/
def listedAs (files : Files) (h : Head) : Option Snapshot :=
  match h.ranks, h.ranksIn with
  | some inline, _ => some (snapshotOf h inline)
  | none, some path => (readRanks files path h.id).map (snapshotOf h)
  | none, none => some (snapshotOf h ∅)

/-- The identifiers of the heads whose ranks cannot be read. -/
def unreadableIn (files : Files) (heads : List Head) : List Uuid :=
  (heads.filter fun h => (listedAs files h).isNone).map (·.id)

section
variable {files files' : Files} {h : Head} {s : Snapshot} {heads : List Head}

theorem snapshotOf_of_listedAs (listed : listedAs files h = some s) : ∃ ranks, s = snapshotOf h ranks := by
  unfold listedAs at listed
  split at listed
  · exact ⟨_, (Option.some.inj listed).symm⟩
  · obtain ⟨ranks, _, same⟩ := Option.map_eq_some_iff.mp listed
    exact ⟨ranks, same.symm⟩
  · exact ⟨_, (Option.some.inj listed).symm⟩

theorem id_of_listedAs (listed : listedAs files h = some s) : s.id = h.id := by
  obtain ⟨_, rfl⟩ := snapshotOf_of_listedAs listed
  rfl

theorem base_of_listedAs (listed : listedAs files h = some s) : s.baseSnapshotId = h.baseSnapshotId := by
  obtain ⟨_, rfl⟩ := snapshotOf_of_listedAs listed
  rfl

theorem readRanks_congr {p : Path} {id : Uuid} (same : files'.find? p = files.find? p) :
    readRanks files' p id = readRanks files p id := by
  simp only [readRanks, Storage.get, same]

theorem listedAs_congr (same : ∀ p, h.ranksFile = some p → files'.find? p = files.find? p) :
    listedAs files' h = listedAs files h := by
  unfold listedAs
  unfold Head.ranksFile at same
  split
  · rfl
  · rename_i path noInline named
    rw [readRanks_congr (same path (by simp [noInline, named]))]
  · rfl

/-- Ranks that could be read were in a file. -/
theorem found_of_listedAs {p : Path} (listed : listedAs files h = some s) (named : h.ranksFile = some p) :
    (files.find? p).isSome = true := by
  unfold Head.ranksFile at named
  cases inline : h.ranks with
  | some _ => simp [inline] at named
  | none =>
    have named : h.ranksIn = some p := by simpa [inline] using named
    simp only [listedAs, inline, named, Option.map_eq_some_iff] at listed
    obtain ⟨_, read, _⟩ := listed
    unfold readRanks at read
    cases found : files.find? p with
    | some _ => rfl
    | none => simp [Storage.get, found, Except.toOption] at read

theorem readHeads_listedAs (files : Files) (heads : List Head) :
    (readHeads files (fun _ => none) heads).snapshots = heads.filterMap (listedAs files) ∧
      (readHeads files (fun _ => none) heads).unreadable = unreadableIn files heads := by
  induction heads with
  | nil => exact ⟨rfl, rfl⟩
  | cons h rest ih =>
    unfold unreadableIn at ih ⊢
    cases inline : h.ranks with
    | some ranks => simp [readHeads, inline, ih, listedAs]
    | none =>
      cases named : h.ranksIn with
      | none => simp [readHeads, inline, named, ih, listedAs]
      | some path =>
        cases read : readRanks files path h.id with
        | some ranks => simp [readHeads, inline, named, read, ih, listedAs]
        | none => simp [readHeads, inline, named, read, ih, listedAs]

/-- What a load lists: every head it can read, less the deltas of those it cannot. -/
def readable (files : Files) (heads : List Head) : List Snapshot :=
  (heads.filterMap (listedAs files)).filter fun s =>
    s.baseSnapshotId.all fun base => !(unreadableIn files heads).contains base

theorem readable_congr (same : ∀ h ∈ heads, ∀ p, h.ranksFile = some p → files'.find? p = files.find? p) :
    readable files' heads = readable files heads := by
  have each : ∀ h ∈ heads, listedAs files' h = listedAs files h := fun h listed =>
    listedAs_congr (same h listed)
  have unread : unreadableIn files' heads = unreadableIn files heads := by
    unfold unreadableIn
    rw [List.filter_congr fun h listed => by rw [each h listed]]
  unfold readable
  rw [unread, List.filterMap_congr each]

theorem mem_readable : s ∈ readable files heads ↔ (∃ h ∈ heads, listedAs files h = some s) ∧
    ∀ base, s.baseSnapshotId = some base →
      ∀ g ∈ heads, g.id = base → ∃ t, listedAs files g = some t := by
  have unread : ∀ base, base ∉ unreadableIn files heads ↔
      ∀ g ∈ heads, g.id = base → ∃ t, listedAs files g = some t := by
    intro base
    simp only [unreadableIn, List.mem_map, List.mem_filter, Option.isNone_iff_eq_none, not_exists,
      not_and, and_imp, ← Option.ne_none_iff_exists']
    exact ⟨fun apart g listed same lost => apart g listed lost same,
      fun all g listed lost same => all g listed same lost⟩
  unfold readable
  rw [List.mem_filter, List.mem_filterMap]
  refine and_congr_right fun _ => ?_
  cases s.baseSnapshotId with
  | none => simp
  | some base => simp [← unread base]

theorem load_lists {data : Bytes} {index : Index} {m : Manifest}
    (found : files.find? .manifestJson = some data)
    (decoded : SerdeJson.index.fromSlice (Library.Codec.trimZeros data) = .ok index)
    (loaded : load files none = .ok (some m)) : m.snapshots = readable files index.snapshots := by
  obtain ⟨heads, unread⟩ := readHeads_listedAs files index.snapshots
  simp only [load, found, decoded, Except.mapError, bind, Except.bind, pure, Except.pure,
    Except.ok.injEq, Option.some.injEq] at loaded
  subst loaded
  unfold readable
  simp only [heads, unread]
  split
  · rename_i none
    rw [List.isEmpty_iff.mp none, List.filter_eq_self.mpr]
    intro s _
    cases s.baseSnapshotId <;> rfl
  · rfl

end
end ManifestIo

namespace RemoteSync

/-- `files` came down where they were not, and nothing else is different. -/
def Pulled (remote : Files) (files : List Path) (before after : Files) : Prop :=
  ∀ p, after.find? p = if p ∈ files then (before.find? p).or (remote.find? p) else before.find? p

section
variable {remote before after : Files} {files : List Path} {p : Path}

theorem Pulled.kept (pulled : Pulled remote files before after) (present : (before.find? p).isSome = true) :
    (after.find? p).isSome = true := by
  rw [pulled p]
  split <;> simp [present]

theorem Pulled.brought (pulled : Pulled remote files before after) (chosen : p ∈ files)
    (present : (remote.find? p).isSome = true) : (after.find? p).isSome = true := by
  rw [pulled p, if_pos chosen]
  simp [present]

theorem Pulled.of_found (pulled : Pulled remote files before after)
    (present : (after.find? p).isSome = true) :
    (before.find? p).isSome = true ∨ (remote.find? p).isSome = true := by
  rw [pulled p] at present
  split at present
  · simpa using present
  · exact .inl present

theorem copyFile_spec (before : Files) : Triple (fun w => w.disk.files = before)
    (copyFile remote Storage.putExact p)
    (fun _ w => ∀ k, w.disk.files.find? k =
      if k = p then (remote.find? k).or (before.find? k) else before.find? k)
    fun _ _ => True := by
  unfold copyFile
  cases found : remote.find? p with
  | none =>
    refine Triple.pure fun w start k => ?_
    rw [start]
    split
    · rename_i same
      simp [same, found]
    · rfl
  | some data =>
    refine Storage.putExact_spec (fun w start k => ?_) fun _ _ _ => trivial
    simp only [Disk.files_change, Change.apply, FileStore.find?_put, start]
    split
    · rename_i same
      simp [same, found]
    · rfl

theorem restoreManifest_spec : Triple (fun w => w.disk.files = before) (restoreManifest remote)
    (fun there w => (∀ k, w.disk.files.find? k =
      if k = .manifestJson then (remote.find? k).or (before.find? k) else before.find? k) ∧
        there = (w.disk.files.find? .manifestJson).isSome)
    fun _ _ => True := by
  refine Triple.bind _ (copyFile_spec _) fun _ => ?_
  refine Triple.get_bind fun w => Triple.pure ?_
  rintro w' ⟨rfl, copied⟩
  exact ⟨copied, rfl⟩

/-- A copy of what is absent replaces nothing. -/
theorem pull_spec : Triple (fun w => w.disk.files = before) (pull remote files)
    (fun _ w => Pulled remote files before w.disk.files) fun _ _ => True := by
  refine Triple.get_bind fun w => Triple.learn (P := w.disk.files = before) ?_ fun known => ?_
  · rintro s ⟨rfl, start⟩
    exact start
  subst known
  generalize absent : files.filter (fun p => !w.disk.files.names.contains p) = missing
  have notHere : ∀ p ∈ missing, w.disk.files.find? p = none := by
    subst absent
    simp +contextual [w.disk.files.mem_names]
  unfold copyAbsent
  rw [absent]
  refine Triple.weaken _ (@Triple.forM_progress _ _ _
    (fun done (s : World) => Pulled remote done w.disk.files s.disk.files) _ _ _
      fun done p rest split => ?_) ?_ (fun _ s pulled p => ?_) fun _ _ failed => failed
  · intro s held
    refine Triple.weaken _ (copyFile_spec s.disk.files) (fun _ same => same)
      (fun _ after copied k => ?_) (fun _ _ _ => trivial) s rfl
    rw [copied k, held k]
    by_cases same : k = p
    · subst same
      cases remote.find? k <;> simp [notHere k (by simp [split])]
    · simp [same]
  · rintro s ⟨rfl, _⟩ p
    simp
  · rw [pulled p, ← absent]
    cases found : w.disk.files.find? p with
    | some data => simp
    | none => simp [w.disk.files.mem_names, found]

end
end RemoteSync

namespace Coordinator
variable [SerdeJson] {before : Files} {fresh : Manifest}

/-- Recording the list removes no file and leaves the list as it is. -/
theorem persistAside_spec (before : Files) : Triple (fun w => w.disk.files = before) (persistAside fresh)
    (fun m w => m.snapshots = fresh.snapshots ∧
      ∀ p, (before.find? p).isSome = true → (w.disk.files.find? p).isSome = true)
    fun _ _ => True := by
  let inv : World → Prop := fun w => w.manifest.snapshots = fresh.snapshots ∧
    ∀ p, (before.find? p).isSome = true → (w.disk.files.find? p).isSome = true
  have recorded : Triple inv ManifestIo.persist (fun _ => inv) fun _ => inv := by
    refine ManifestIo.persist_invariant (fun w ids held => held) fun w p body held _ => ⟨held.1, ?_⟩
    intro k there
    simp only [Disk.files_change, Change.apply, FileStore.find?_put]
    split
    · rfl
    · exact held.2 k there
  refine Triple.get_keep fun w => Triple.modify_bind inv (fun w start => ⟨rfl, ?_⟩) fun _ => ?_
  · intro p there
    rwa [← start] at there
  · refine Triple.bind _ (Triple.ignoring recorded) fun _ => Triple.get_bind fun w => ?_
    refine Triple.modify_bind (fun w' => w'.disk = w.disk ∧ inv w) ?_ fun _ => Triple.pure ?_
    · rintro w' ⟨rfl, held⟩
      exact ⟨rfl, held⟩
    · rintro w' ⟨same, held⟩
      exact ⟨held.1, same ▸ held.2⟩

/-- This disk once the index and the files of ranks are down. -/
def Staged (remote before after : Files) : Prop :=
  ∀ p, after.find? p =
    if p = .manifestJson then (remote.find? p).or (before.find? p)
    else if p.describesRanks then (before.find? p).or (remote.find? p)
    else before.find? p

/-- What a restore that found an index leaves, `staged` being the disk it read the
index from and `read` what it read. -/
structure Brought (cfg : Config) (remote staged : Files) (read : Manifest) (after : World) : Prop where
  list : after.manifest.snapshots = Recovery.reachable staged remote.names read.snapshots
  files : ∃ mid : Files, (∀ p, (staged.find? p).isSome = true → (mid.find? p).isSome = true) ∧
    RemoteSync.Pulled remote (remote.names.filter (isWanted cfg after.manifest)) mid after.disk.files
  exact : Recovery.reachable staged remote.names read.snapshots = read.snapshots →
    after.manifest = read ∧
      RemoteSync.Pulled remote (remote.names.filter (isWanted cfg read)) staged after.disk.files

omit [SerdeJson] in
theorem Staged.of_pulled {remote staged : Files} {first : Path → Option Bytes}
    (manifest : ∀ k, first k =
      if k = .manifestJson then (remote.find? k).or (before.find? k) else before.find? k)
    (pulled : ∀ p, staged.find? p = if p ∈ remote.names.filter Path.describesRanks then
      (first p).or (remote.find? p) else first p) : Staged remote before staged := by
  intro p
  rw [pulled p, manifest p]
  by_cases index : p = .manifestJson
  · subst index
    simp [Path.describesRanks]
  · cases ranks : p.describesRanks with
    | false => simp [index, ranks]
    | true =>
      cases found : remote.find? p with
      | some data => simp [index, ranks, remote.mem_names, found]
      | none => simp [index, ranks, remote.mem_names, found]

theorem restoreFromRemote_spec {cfg : Config} {remote : Files}
    (found : ((remote.find? .manifestJson).or (before.find? .manifestJson)).isSome = true) :
    Triple (fun w => w.disk.files = before) (restoreFromRemote cfg (some remote))
      (fun usable after => ∃ staged read, Staged remote before staged ∧
        Recovery.loadManifest cfg staged = .ok read ∧ usable = !after.manifest.snapshots.isEmpty ∧
          Brought cfg remote staged read after)
      fun _ _ => True := by
  unfold restoreFromRemote
  refine Triple.bind _ RemoteSync.restoreManifest_spec fun there => ?_
  cases there with
  | false =>
    rintro w ⟨manifest, absent⟩
    simp [manifest, found] at absent
  | true =>
    intro w start
    obtain ⟨manifest, -⟩ := start
    suffices Triple (fun s : World => s.disk.files = w.disk.files) _ _ _ from this w rfl
    refine Triple.bind _ RemoteSync.pull_spec fun _ => Triple.get_bind fun w₁ => ?_
    refine Triple.learn (P := Staged remote before w₁.disk.files) ?_ fun staged => ?_
    · rintro s ⟨rfl, pulled⟩
      exact .of_pulled manifest pulled
    cases loaded : Recovery.loadManifest cfg w₁.disk.files with
    | error e => exact Triple.returning_error loaded fun _ _ => trivial
    | ok read =>
      refine Triple.returning_ok loaded ?_
      generalize list : Recovery.reachable w₁.disk.files remote.names read.snapshots = kept
      refine Triple.bind (fun (m : Manifest) (s : World) => m.snapshots = kept ∧
          (∀ p, (w₁.disk.files.find? p).isSome = true → (s.disk.files.find? p).isSome = true) ∧
            (kept = read.snapshots → m = read ∧ s.disk.files = w₁.disk.files)) ?_ fun m => ?_
      · unfold recordDropped
        dsimp only
        split
        · rename_i fewer
          refine Triple.weaken _ (persistAside_spec w₁.disk.files) ?_ (fun m s held => ?_)
            fun _ _ failed => failed
          · rintro s ⟨rfl, _⟩
            rfl
          · refine ⟨held.1, held.2, fun same => ?_⟩
            simp [same] at fewer
        · refine Triple.pure ?_
          rintro s ⟨rfl, _⟩
          exact ⟨rfl, fun _ there => there, fun same => ⟨by rw [same], rfl⟩⟩
      · intro s₁ recorded
        suffices Triple (fun s : World => s.disk.files = s₁.disk.files) _ _ _ from this s₁ rfl
        refine Triple.bind _ RemoteSync.pull_spec fun _ => ?_
        refine Triple.modify_bind (fun s => s.manifest = m ∧ RemoteSync.Pulled remote
          (remote.names.filter (isWanted cfg m)) s₁.disk.files s.disk.files)
          (fun s pulled => ⟨rfl, pulled⟩) fun _ => Triple.pure ?_
        rintro s ⟨rfl, pulled⟩
        refine ⟨w₁.disk.files, read, staged, loaded, rfl, ?_, ?_, fun same => ?_⟩
        · rw [list]
          exact recorded.1
        · exact ⟨s₁.disk.files, recorded.2.1, pulled⟩
        · obtain ⟨here, files⟩ := recorded.2.2 (list ▸ same)
          exact ⟨here, by rwa [here, files] at pulled⟩

end Coordinator

/-- Every file the snapshot names can be found in `places`. -/
def Snapshot.In (places : Files) (s : Snapshot) : Prop :=
  ∀ p ∈ s.filesOf none, (places.find? p).isSome = true

/-- A snapshot's files lie in its own directory, where saves and merges put them. -/
def Snapshot.Housed (s : Snapshot) : Prop := ∀ p ∈ s.filesOf none, p.belongsTo s.id = true

theorem Snapshot.In.mono {s : Snapshot} {files files' : Files} (here : s.In files)
    (more : ∀ p, (files.find? p).isSome = true → (files'.find? p).isSome = true) : s.In files' :=
  fun p named => more p (here p named)

section
variable [SerdeJson]

/-- An index as the store writes it: no delta of a delta, and each snapshot's ranks
and packs in the snapshot's own directory. -/
structure Index.Orderly (places : Files) (index : Index) : Prop where
  bases : ∀ h ∈ index.snapshots, ∀ g ∈ index.snapshots, h.baseSnapshotId = some g.id →
    g.baseSnapshotId = none
  ranks : ∀ h ∈ index.snapshots, ∀ p, h.ranksFile = some p → p = ranksPath h.id
  packs : ∀ h ∈ index.snapshots, ∀ s, ManifestIo.listedAs places h = some s → s.Housed

/-- A base is itself a full, so nothing it depends on can be missing. -/
theorem Index.Orderly.full {places : Files} {index : Index} {h g : Head} {s t : Snapshot}
    (orderly : index.Orderly places) (named : h ∈ index.snapshots) (listed : g ∈ index.snapshots)
    (described : ManifestIo.listedAs places h = some s) (reads : ManifestIo.listedAs places g = some t)
    (delta : s.baseSnapshotId = some g.id) : t.baseSnapshotId = none := by
  rw [ManifestIo.base_of_listedAs reads]
  refine orderly.bases h named g listed ?_
  rw [← ManifestIo.base_of_listedAs described, delta]

/-- What a restore leaves of an index, `places` being the disk and the bucket it
started from, the disk deciding what both have. -/
structure Restored (cfg : Config) (places : Files) (index : Index) (after : World) : Prop where
  /-- What is listed is whole between the two places, and its base is listed. -/
  whole : ∀ s ∈ after.manifest.snapshots, s.In places ∧
    ∀ base, s.baseSnapshotId = some base → ∃ t ∈ after.manifest.snapshots, t.id = base
  /-- What is whole and readable, with its base, is listed. -/
  complete : ∀ h ∈ index.snapshots, ∀ s, ManifestIo.listedAs places h = some s → s.In places →
    (∀ base, s.baseSnapshotId = some base →
      (∃ g ∈ index.snapshots, g.id = base ∧ ∃ t, ManifestIo.listedAs places g = some t ∧ t.In places) ∧
        ∀ g ∈ index.snapshots, g.id = base → ∃ t, ManifestIo.listedAs places g = some t) →
    s ∈ after.manifest.snapshots
  /-- What a resume loads is on the disk. -/
  resume : ∀ s, after.manifest.snapshots.reverse.find? (·.finalized) = some s →
    s.In after.disk.files ∧
      ∀ t ∈ after.manifest.snapshots, s.baseSnapshotId = some t.id → t.In after.disk.files
  merger : cfg.merger.isSome = true → ∀ s ∈ after.manifest.snapshots, s.In after.disk.files
  /-- So is every file of ranks the index puts what is listed in. -/
  ranks : ∀ s ∈ after.manifest.snapshots, ∃ h ∈ index.snapshots,
    ManifestIo.listedAs places h = some s ∧
      ∀ p, h.ranksFile = some p → (after.disk.files.find? p).isSome = true

namespace Coordinator
variable {cfg : Config} {remote before staged : Files} {index : Index} {after : World} {read : Manifest}

omit [SerdeJson] in
theorem Staged.find_ranks (down : Staged remote before staged) (id : Uuid) :
    staged.find? (ranksPath id) = (before.onTopOf remote).find? (ranksPath id) := by
  rw [down]
  simp [ranksPath, Path.describesRanks, FileStore.find?_onTopOf]

omit [SerdeJson] in
theorem Staged.of_found (down : Staged remote before staged) {p : Path}
    (found : (staged.find? p).isSome = true) : ((before.onTopOf remote).find? p).isSome = true := by
  rw [down] at found
  rw [FileStore.find?_onTopOf]
  by_cases index : p = .manifestJson
  · simpa [index, or_comm] using found
  · cases ranks : p.describesRanks <;> simp_all

omit [SerdeJson] in
theorem Staged.kept (down : Staged remote before staged) {p : Path}
    (found : (before.find? p).isSome = true) : (staged.find? p).isSome = true := by
  rw [down]
  by_cases index : p = .manifestJson
  · simp_all
  · cases ranks : p.describesRanks <;> simp_all

omit [SerdeJson] in
/-- Whole where a restore looks is whole in the two places. -/
theorem reachable_iff {s : Snapshot} (down : Staged remote before staged) :
    Recovery.snapshotIsReachable staged remote.names s = true ↔ s.In (before.onTopOf remote) := by
  simp only [Recovery.snapshotIsReachable, List.all_eq_true, Bool.or_eq_true, List.contains_iff_mem,
    remote.mem_names]
  refine forall₂_congr fun p _ => ⟨fun found => ?_, fun found => ?_⟩
  · rcases found with bucket | disk
    · simp [FileStore.find?_onTopOf, bucket]
    · exact down.of_found disk
  · simp only [FileStore.find?_onTopOf, Option.isSome_or, Bool.or_eq_true] at found
    exact found.symm.imp id down.kept

/-- The list a restore settles on. -/
theorem mem_reachable {s : Snapshot} {heads : List Head} (down : Staged remote before staged) :
    s ∈ Recovery.reachable staged remote.names (ManifestIo.readable staged heads) ↔
      (s ∈ ManifestIo.readable staged heads ∧ s.In (before.onTopOf remote)) ∧
        ∀ base, s.baseSnapshotId = some base →
          ∃ t, (t ∈ ManifestIo.readable staged heads ∧ t.In (before.onTopOf remote)) ∧ t.id = base := by
  have kept : ∀ t, t ∈ (ManifestIo.readable staged heads).filter
      (Recovery.snapshotIsReachable staged remote.names) ↔
        t ∈ ManifestIo.readable staged heads ∧ t.In (before.onTopOf remote) := by
    intro t
    rw [List.mem_filter, reachable_iff down]
  unfold Recovery.reachable
  rw [List.mem_filter, kept]
  refine and_congr_right fun _ => ?_
  cases s.baseSnapshotId with
  | none => simp
  | some base =>
    simp only [Option.all_some, List.any_eq_true, beq_iff_eq, Option.some.injEq, forall_eq', kept]

omit [SerdeJson] in
/-- What is wanted is on the disk in the end, when it is in either place. -/
theorem Brought.here {s : Snapshot} (down : Staged remote before staged)
    (brought : Brought cfg remote staged read after) (whole : s.In (before.onTopOf remote))
    (wanted : ∀ p ∈ s.filesOf none, isWanted cfg after.manifest p = true) :
    s.In after.disk.files := by
  intro p named
  obtain ⟨mid, grown, pulled⟩ := brought.files
  have somewhere := whole p named
  simp only [FileStore.find?_onTopOf, Option.isSome_or, Bool.or_eq_true] at somewhere
  rcases somewhere with disk | bucket
  · exact pulled.kept (grown p (down.kept disk))
  · exact pulled.brought (List.mem_filter.mpr ⟨remote.mem_names.mpr bucket, wanted p named⟩) bucket

omit [SerdeJson] in
theorem isWanted_of_belongs {m : Manifest} {p : Path} {id : Uuid} (own : p.belongsTo id = true)
    (chosen : cfg.merger.isSome = true ∨ id ∈ resumed m) : isWanted cfg m p = true := by
  cases p with
  | snapshots dir file =>
    rcases chosen with merger | loaded
    · simp [isWanted, merger]
    · have any : ((resumed m).any fun id => (Path.snapshots dir file).belongsTo id) = true :=
        List.any_eq_true.mpr ⟨id, loaded, own⟩
      simp [isWanted, any]
  | _ => simp [Path.belongsTo] at own

theorem loadManifest_lists {data : Bytes} (found : staged.find? .manifestJson = some data)
    (decoded : SerdeJson.index.fromSlice (Library.Codec.trimZeros data) = .ok index)
    (loaded : Recovery.loadManifest cfg staged = .ok read) :
    read.snapshots = ManifestIo.readable staged index.snapshots := by
  unfold Recovery.loadManifest at loaded
  cases outcome : ManifestIo.load staged none with
  | error e => simp [outcome, bind, Except.bind] at loaded
  | ok m =>
    cases m with
    | none =>
        simp [ManifestIo.load, found, decoded, Except.mapError, bind, Except.bind, pure,
        Except.pure] at outcome
    | some m =>
      simp only [outcome, bind, Except.bind, pure, Except.pure, Except.ok.injEq] at loaded
      subst loaded
      exact ManifestIo.load_lists found decoded outcome

omit [SerdeJson] in
theorem mem_of_resumed {m : Manifest} {s : Snapshot}
    (newest : m.snapshots.reverse.find? (·.finalized) = some s) :
    s ∈ m.snapshots :=
  List.mem_reverse.mp (List.mem_of_find?_eq_some newest)

/-- The list a restore leaves, in terms of the two places it started from. -/
theorem mem_restored {s : Snapshot} (orderly : index.Orderly (before.onTopOf remote))
    (down : Staged remote before staged)
    (lists : read.snapshots = ManifestIo.readable staged index.snapshots)
    (brought : Brought cfg remote staged read after) :
    s ∈ after.manifest.snapshots ↔
      (∃ h ∈ index.snapshots, ManifestIo.listedAs (before.onTopOf remote) h = some s) ∧
        s.In (before.onTopOf remote) ∧ ∀ base, s.baseSnapshotId = some base →
          (∃ g ∈ index.snapshots, g.id = base ∧
            ∃ t, ManifestIo.listedAs (before.onTopOf remote) g = some t ∧ t.In (before.onTopOf remote)) ∧
          ∀ g ∈ index.snapshots, g.id = base →
            ∃ t, ManifestIo.listedAs (before.onTopOf remote) g = some t := by
  have fresh : ManifestIo.readable staged index.snapshots =
      ManifestIo.readable (before.onTopOf remote) index.snapshots :=
    ManifestIo.readable_congr fun h listed p named => by
      rw [orderly.ranks h listed p named, down.find_ranks]
  rw [brought.list, lists, mem_reachable down, fresh, ManifestIo.mem_readable]
  constructor
  · rintro ⟨⟨⟨head, readable⟩, whole⟩, bases⟩
    refine ⟨head, whole, fun base delta => ⟨?_, readable base delta⟩⟩
    obtain ⟨t, ⟨listed, there⟩, same⟩ := bases base delta
    obtain ⟨g, named, described⟩ := (ManifestIo.mem_readable.mp listed).1
    exact ⟨g, named, (ManifestIo.id_of_listedAs described).symm.trans same, t, described, there⟩
  · rintro ⟨⟨h, named, described⟩, whole, bases⟩
    refine ⟨⟨⟨⟨h, named, described⟩, fun base delta => (bases base delta).2⟩, whole⟩, fun base delta => ?_⟩
    obtain ⟨⟨g, listed, same, t, reads, there⟩, _⟩ := bases base delta
    have full := orderly.full named listed described reads (same ▸ delta)
    refine ⟨t, ⟨ManifestIo.mem_readable.mpr ⟨⟨g, listed, reads⟩, ?_⟩, there⟩, ?_⟩
    · simp [full]
    · rw [ManifestIo.id_of_listedAs reads, same]

/-- Of an orderly index a restore keeps exactly what is whole and readable between
the disk and the bucket, and brings down what a resume loads. -/
theorem restored {w : World} {usable : Bool} (data : Bytes)
    (found : (remote.find? .manifestJson).or (w.disk.files.find? .manifestJson) = some data)
    (decoded : SerdeJson.index.fromSlice (Library.Codec.trimZeros data) = .ok index)
    (orderly : index.Orderly (w.disk.files.onTopOf remote))
    (ran : restoreFromRemote cfg (some remote) w = .ok usable after) :
    Restored cfg (w.disk.files.onTopOf remote) index after ∧
      (usable = true ↔ after.manifest.snapshots ≠ []) := by
  obtain ⟨staged, read, down, loaded, answer, brought⟩ :=
    (restoreFromRemote_spec (by simp [found])).ok rfl ran
  have lists := loadManifest_lists (by rw [down]; simpa using found) decoded loaded
  have listed := fun s => @mem_restored _ _ _ _ _ _ _ _ s orderly down lists brought
  have housed : ∀ s ∈ after.manifest.snapshots, s.In (w.disk.files.onTopOf remote) ∧ s.Housed := by
    intro s here
    obtain ⟨⟨h, named, described⟩, whole, _⟩ := (listed s).mp here
    exact ⟨whole, orderly.packs h named s described⟩
  have loads : ∀ s ∈ after.manifest.snapshots,
      cfg.merger.isSome = true ∨ s.id ∈ resumed after.manifest → s.In after.disk.files := by
    intro s here chosen
    exact brought.here down (housed s here).1 fun p named =>
      isWanted_of_belongs ((housed s here).2 p named) chosen
  refine ⟨⟨fun s here => ?_, fun h named s described whole bases => ?_, fun s newest => ?_,
    fun merger s here => loads s here (.inl merger), fun s here => ?_⟩, ?_⟩
  · refine ⟨(housed s here).1, fun base delta => ?_⟩
    obtain ⟨⟨h, named, described⟩, _, bases⟩ := (listed s).mp here
    obtain ⟨⟨g, there, same, t, reads, whole⟩, _⟩ := bases base delta
    have full := orderly.full named there described reads (same ▸ delta)
    refine ⟨t, (listed t).mpr ⟨⟨g, there, reads⟩, whole, fun base delta => ?_⟩, ?_⟩
    · simp [full] at delta
    · rw [ManifestIo.id_of_listedAs reads, same]
  · exact (listed s).mpr ⟨⟨h, named, described⟩, whole, bases⟩
  · refine ⟨loads s (mem_of_resumed newest) (.inr (by simp [resumed, newest])), fun t here delta => ?_⟩
    exact loads t here (.inr (by simp [resumed, newest, delta]))
  · obtain ⟨⟨h, named, described⟩, _⟩ := (listed s).mp here
    refine ⟨h, named, described, fun p ranks => ?_⟩
    obtain ⟨mid, grown, pulled⟩ := brought.files
    have there := ManifestIo.found_of_listedAs described ranks
    rw [orderly.ranks h named p ranks, ← down.find_ranks] at there
    rw [orderly.ranks h named p ranks]
    exact pulled.kept (grown _ there)
  · simp [answer]

end Coordinator
end

namespace Coordinator
namespace Bucket

/-- Two fulls in the bucket's index. -/
def both : Manifest := ⟨3, 1, [emptyFull 1 100 false, emptyFull 2 200 false], .default, .default, {1, 2}⟩

def ranksOf (id : Uuid) (step : Nat) : RanksFile := ⟨id, (emptyFull id step false).ranks⟩

/-- A full that says its bytes are in another snapshot's directory. -/
def misplaced : Snapshot := { emptyFull 2 200 false with ranks := (emptyFull 1 100 false).ranks }

def strayed : Manifest := ⟨3, 1, [misplaced], .default, .default, ∅⟩

abbrev serde : SerdeJson :=
  JsonText.serde (fun _ => []) [ManifestIo.indexOf both, ManifestIo.indexOf strayed]
    [ranksOf 1 100, ranksOf 2 200] [] []

def indexText (m : Manifest) : Bytes := JsonText.index (fun _ => []) (ManifestIo.indexOf m)

def ranksText (id : Uuid) (step : Nat) : Bytes := JsonText.ranksFile (fun _ => []) (ranksOf id step)

/-- The pack of the second never made it. -/
def behind : Files :=
  (((FileStore.empty.put .manifestJson (indexText both)).put (packPath 1 0) [1]).put (ranksPath 1)
    (ranksText 1 100)).put (ranksPath 2) (ranksText 2 200)

def stray : Files := (FileStore.empty.put .manifestJson (indexText strayed)).put (packPath 1 0) [1]

def after (remote : Files) : World :=
  @finalState _ _ _ (@restoreFromRemote serde OneFull.config (some remote)) OneFull.blank

end Bucket

/-- The restore returns, lists the snapshot, and its only file is still in the bucket. -/
theorem stray_pack_left :
    let _ := Bucket.serde
    ∃ usable after s, SerdeJson.index.fromSlice (Library.Codec.trimZeros (Bucket.indexText Bucket.strayed)) =
        .ok (ManifestIo.indexOf Bucket.strayed) ∧
      (∀ h ∈ (ManifestIo.indexOf Bucket.strayed).snapshots, h.baseSnapshotId = none) ∧
      restoreFromRemote OneFull.config (some Bucket.stray) OneFull.blank = .ok usable after ∧
      after.manifest.snapshots.reverse.find? (·.finalized) = some s ∧
      ¬ s.In after.disk.files := by
  intro serde
  have ran : (SerdeJson.index.fromSlice (Library.Codec.trimZeros
        (Bucket.indexText Bucket.strayed))).toOption = some (ManifestIo.indexOf Bucket.strayed) ∧
      (∀ h ∈ (ManifestIo.indexOf Bucket.strayed).snapshots, h.baseSnapshotId = none) ∧
      returns (restoreFromRemote OneFull.config (some Bucket.stray)) OneFull.blank = true ∧
      (Bucket.after Bucket.stray).manifest.snapshots = [Bucket.misplaced] ∧
      (Bucket.after Bucket.stray).disk.files.find? (packPath 1 0) = none := by
    decide +kernel
  obtain ⟨decoded, fulls, returned, listed, missing⟩ := ran
  obtain ⟨usable, restored⟩ := exists_ok returned
  refine ⟨usable, Bucket.after Bucket.stray, Bucket.misplaced, toOption_eq_some.mp decoded, fulls,
    restored, by rw [listed]; rfl, fun here => ?_⟩
  have present := here (packPath 1 0) (by decide +kernel)
  rw [missing] at present
  contradiction

/-- Of the two the first is whole: it alone is listed, and is here. -/
theorem restored_behind :
    let _ := Bucket.serde
    ∃ usable after, restoreFromRemote OneFull.config (some Bucket.behind) OneFull.blank = .ok usable after ∧
      Restored OneFull.config (OneFull.blank.disk.files.onTopOf Bucket.behind)
        (ManifestIo.indexOf Bucket.both) after ∧
      (usable = true ↔ after.manifest.snapshots ≠ []) ∧ after.manifest.snapshots.map (·.id) = [1] := by
  intro serde
  have ran : (SerdeJson.index.fromSlice (Library.Codec.trimZeros
        (Bucket.indexText Bucket.both))).toOption = some (ManifestIo.indexOf Bucket.both) ∧
      returns (restoreFromRemote OneFull.config (some Bucket.behind)) OneFull.blank = true ∧
      (Bucket.after Bucket.behind).manifest.snapshots.map (·.id) = [1] := by
    decide +kernel
  have orderly : (∀ h ∈ (ManifestIo.indexOf Bucket.both).snapshots,
        ∀ g ∈ (ManifestIo.indexOf Bucket.both).snapshots,
          h.baseSnapshotId = some g.id → g.baseSnapshotId = none) ∧
      (∀ h ∈ (ManifestIo.indexOf Bucket.both).snapshots, ∀ p ∈ h.ranksFile, p = ranksPath h.id) ∧
      ∀ h ∈ (ManifestIo.indexOf Bucket.both).snapshots,
        ∀ s ∈ ManifestIo.listedAs (OneFull.blank.disk.files.onTopOf Bucket.behind) h,
          ∀ p ∈ s.filesOf none, p.belongsTo s.id = true := by
    decide +kernel
  obtain ⟨decoded, returned, listed⟩ := ran
  obtain ⟨usable, done⟩ := exists_ok returned
  obtain ⟨left, answer⟩ := restored (Bucket.indexText Bucket.both) rfl
    (toOption_eq_some.mp decoded) ⟨orderly.1, orderly.2.1, orderly.2.2⟩ done
  exact ⟨usable, _, done, left, answer, listed⟩

end Coordinator
end Moonclip
