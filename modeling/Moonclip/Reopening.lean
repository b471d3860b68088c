import Moonclip.Persisting

/-! Opening a store on what a crash left: the list on record is read back as it
was, and the packs nothing lists come back as what was saved, or go. -/
namespace Moonclip
open Library.Codec Library.Effect Library.Files Library.Outcome

section
variable [SerdeJson] {a : Archive} {files : Files} {m : Manifest}

namespace ManifestIo

/-- Heads that name their files are read back as the snapshots they stand for. -/
theorem readHeads_written {written : Finset Uuid} {snapshots : List Snapshot}
    (all : ∀ s ∈ snapshots, s.id ∈ written ∧
      readRanks files (ranksPath s.id) s.id = some s.ranks) :
    readHeads files (fun _ => none) (snapshots.map (headOf written)) =
      ⟨snapshots, (snapshots.map (·.id)).toFinset, []⟩ := by
  induction snapshots with
  | nil => rfl
  | cons s rest ih =>
    obtain ⟨there, read⟩ := all s (by simp)
    have nothing : Function.update (fun _ => none : Uuid → Option RankMap) s.id none = fun _ => none :=
      Function.update_eq_self s.id _
    have later := ih fun t listed => all t (by simp [listed])
    simp only [List.map_cons, readHeads, headOf, if_pos there] at later ⊢
    rw [nothing, later]
    simp [read, snapshotOf]

variable [LawfulSerdeJson]

theorem readRanks_of_text {k : Kept} {bytes : Bytes} (found : files.find? (ranksPath k.id) = some bytes)
    (text : RanksText k bytes) : readRanks files (ranksPath k.id) k.id = some k.snapshot.ranks := by
  obtain ⟨text, page, encoded, rfl⟩ := text
  have closed := LawfulSerdeJson.ranks.closed encoded
  have back := LawfulSerdeJson.ranks.roundTrip encoded
  simp [readRanks, Storage.get, found, trimZeros_pad closed, back, Except.toOption, bind, Option.bind]

/-- The list on record is what a process that opens the store reads. -/
theorem loadManifest_onRecord (cfg : Config) (sound : ∀ id k, a id = some k → k.id = id ∧ k.Shaped a)
    (recorded : OnRecord a files m) : ∃ m', Recovery.loadManifest cfg files = .ok m' ∧
      m'.snapshots = m.snapshots ∧ ∀ id ∈ m'.ranksWritten, id ∈ m.ranksWritten := by
  rcases recorded.index with ⟨absent, empty⟩ | ⟨text, page, encoded, found⟩
  · refine ⟨{ Manifest.default with
      worldSize := cfg.worldSize, retention := cfg.retention, lineage := cfg.lineage }, ?_, empty.symm,
      by simp [Manifest.default]⟩
    simp only [Recovery.loadManifest, load, absent]
    rfl
  · have closed := LawfulSerdeJson.index.closed encoded
    have back := LawfulSerdeJson.index.roundTrip encoded
    have read : readHeads files (fun _ => none) (indexOf m).snapshots = _ :=
      readHeads_written fun s listed => by
        refine ⟨recorded.outOfLine s listed, ?_⟩
        obtain ⟨k, bytes, kept, found, text⟩ := recorded.written s.id (recorded.outOfLine s listed)
        obtain ⟨k', kept', id, same, _⟩ := recorded.listed.id_eq listed
        obtain rfl : k = k' := by simpa [kept] using kept'
        have alike := Snapshot.alike_of_unpinned
          (same.trans (Snapshot.unpinned_of (sound s.id k kept).2.unpinned).symm)
        rw [← id] at found ⊢
        rw [readRanks_of_text found text, alike.ranks]
    refine ⟨{
      formatVersion := max (indexOf m).formatVersion formatVersion
      worldSize := m.worldSize
      snapshots := m.snapshots
      retention := m.retention
      lineage := m.lineage
      ranksWritten := (m.snapshots.map (·.id)).toFinset }, ?_, rfl, fun id there => ?_⟩
    · simp only [Recovery.loadManifest, load, found, trimZeros_pad closed, back, read, bind, Except.bind,
        Except.mapError, pure, Except.pure, List.isEmpty_nil, if_true]
      rfl
    · obtain ⟨s, listed, rfl⟩ := List.mem_map.mp (List.mem_toFinset.mp there)
      exact recorded.outOfLine s listed

end ManifestIo
namespace Recovery

omit [SerdeJson] in
theorem mem_filesIn {dir : Directory} {p : Path} :
    p ∈ filesIn files dir ↔ p.under dir = true ∧ (files.find? p).isSome = true := by
  simp only [filesIn, Storage.listSnapshots, List.mem_filter, FileStore.mem_names files]
  rw [and_comm]
  refine and_congr_right fun inside => ?_
  rcases Path.under_iff.mp inside with rfl | ⟨name, rfl⟩ <;> simp

theorem packs_in (housed : Housed a files) {dir : Directory} {p : Path}
    (there : p ∈ (filesIn files dir).filter isPack) :
    ∃ id k, dir = .uuid id ∧ p = packPath id 0 ∧ a id = some k ∧ files.find? p = some k.pack := by
  obtain ⟨inside, pack⟩ := List.mem_filter.mp there
  obtain ⟨inside, found⟩ := mem_filesIn.mp inside
  obtain rfl | ⟨name, rfl⟩ := Path.under_iff.mp inside
  · contradiction
  obtain ⟨bytes, found⟩ := Option.isSome_iff_exists.mp found
  cases name with
  | rankPack rank =>
    obtain ⟨id, k, rfl, rfl, kept, rfl⟩ := housed.packs dir rank bytes found
    exact ⟨id, k, rfl, rfl, kept, found⟩
  | ranksJson => simp [isPack, FileName.isPack] at pack
  | other name => simp [housed.others dir name] at found

variable [Zstd] [Xxh3] {buffers : Set Bytes}

/-- What an orphan directory is rebuilt to is what was saved under it. -/
theorem rebuildFromPacks_kept (sound : a.Sound buffers) (housed : Housed a files) {dir : Directory}
    {s : Snapshot} (rebuilt : rebuildFromPacks files dir (filesIn files dir) = some s) :
    ∃ k, a s.id = some k ∧ dir = .uuid s.id ∧ s = k.snapshot ∧ files.find? k.path = some k.pack := by
  have all : ∀ p ∈ (filesIn files dir).filter isPack, _ := fun p => packs_in housed
  have once : ((filesIn files dir).filter isPack).Nodup :=
    ((files.nodup.filter _).filter _).filter _
  unfold rebuildFromPacks at rebuilt
  generalize (filesIn files dir).filter isPack = packs at all once rebuilt
  cases packs with
  | nil => simp at rebuilt
  | cons p rest =>
    obtain ⟨id, k, rfl, rfl, kept, found⟩ := all p (by simp)
    -- a directory of the archive has one pack
    have alone : rest = [] := by
      refine List.eq_nil_iff_forall_not_mem.mpr fun q there => ?_
      obtain ⟨id', k', same, rfl, _⟩ := all q (by simp [there])
      obtain rfl : id = id' := by simpa using same
      exact (List.nodup_cons.mp once).1 there
    subst alone
    obtain ⟨rfl, sound⟩ := sound id k kept
    have described := sound.described files found
    rw [Kept.path] at described
    have whole : (Std.ExtTreeMap.ofList [(k.entry.rank, k.entry)] : RankMap) = k.snapshot.ranks := by
      rw [sound.ranks, sound.rank]
    have size : k.snapshot.ranks.size = 1 := by
      rw [sound.ranks]
      rfl
    simp only [List.mapM_cons, List.mapM_nil, described, bind, Option.bind, pure, List.head?_cons,
      List.map_cons, List.map_nil, Kept.descriptor] at rebuilt
    rw [whole] at rebuilt
    simp only [size, ne_eq, not_true_eq_false, if_false, Option.some.injEq] at rebuilt
    have same : s = k.snapshot := by
      rw [← rebuilt, Kept.id, ← sound.finalized, ← sound.unpinned]
    exact ⟨k, by rw [same]; exact kept, by rw [same]; rfl, same, found⟩

theorem candidateOf_kept (sound : a.Sound buffers) (housed : Housed a files) {dir : Directory}
    {s : Snapshot} (rebuilt : candidateOf files dir = some s) :
    ∃ k, a s.id = some k ∧ dir = .uuid s.id ∧ s = k.snapshot ∧ files.find? k.path = some k.pack :=
  rebuildFromPacks_kept sound housed (Option.filter_eq_some_iff.mp rebuilt).1

/-- A pack that was saved names no length that is not there. -/
theorem candidatePanics_kept (sound : a.Sound buffers) (housed : Housed a files) {e : Enumeration}
    {dir : Directory} : candidatePanics e files dir = false := by
  rw [candidatePanics, Bool.or_eq_false_iff]
  constructor
  · refine comesTo_eq_false fun p there => ?_
    obtain ⟨id, k, rfl, rfl, kept, found⟩ := packs_in housed there
    obtain ⟨rfl, sound⟩ := sound id k kept
    exact descriptorPanics_of_some (sound.described files found)
  · cases rebuilt : rebuildFromPacks files dir (filesIn files dir) with
    | none => rfl
    | some s =>
      obtain ⟨k, kept, _, rfl, found⟩ := rebuildFromPacks_kept sound housed rebuilt
      exact snapshotPanics_of_intact ((sound _ k kept).2.intact files found)

/-- A snapshot that was saved, with its pack where it was put. -/
def Restored (a : Archive) (files : Files) (s : Snapshot) : Prop :=
  ∃ k, a s.id = some k ∧ s = k.snapshot ∧ files.find? k.path = some k.pack

omit [Zstd] [Xxh3] [SerdeJson] in
/-- Admission adds candidates and nothing else, and leaves the list one the store
can load; what it turns down is listed nowhere. -/
theorem admitting_listed (sound : ∀ id k, a id = some k → k.id = id ∧ k.Shaped a)
    {listed candidates : List Snapshot} (held : Listed a files listed)
    (restored : ∀ c ∈ candidates, Restored a files c)
    (apart : ((listed ++ candidates).map (·.id)).Nodup) :
    Listed a files (admitting listed candidates).1 ∧ listed <+: (admitting listed candidates).1 ∧
      (∀ t ∈ (admitting listed candidates).1, t ∈ listed ∨ t ∈ candidates) ∧
      ∀ dir ∈ (admitting listed candidates).2, ∀ t ∈ (admitting listed candidates).1, dir ≠ .uuid t.id := by
  induction candidates generalizing listed with
  | nil => exact ⟨held, List.prefix_rfl, fun _ there => .inl there, by simp [admitting]⟩
  | cons c rest ih =>
    have later : ∀ t ∈ rest, Restored a files t := fun t there => restored t (by simp [there])
    have fresh : ∀ t ∈ listed ++ rest, t.id ≠ c.id := by
      have moved : ((c :: (listed ++ rest)).map (·.id)).Nodup :=
        (List.perm_middle.map _).nodup_iff.mp apart
      intro t there same
      have taken : t.id ∈ (listed ++ rest).map (·.id) := List.mem_map_of_mem there
      rw [same] at taken
      exact (List.nodup_cons.mp moved).1 taken
    simp only [admitting]
    split
    · rename_i based
      obtain ⟨k, kept, rfl, pack⟩ := restored c (by simp)
      have shaped := (sound _ k kept).2
      have grown : Listed a files (listed ++ [k.snapshot]) := by
        refine held.push kept pack shaped.unpinned (fun s there => fresh s (by simp [there]))
          fun id delta => ?_
        obtain ⟨b, keptBase, root⟩ := shaped.base id delta
        simp only [delta, Option.all_some, List.any_eq_true, beq_iff_eq] at based
        obtain ⟨s, there, rfl⟩ := based
        obtain ⟨b', kept', _, same, _⟩ := held.id_eq there
        obtain rfl : b = b' := by simpa [keptBase] using kept'
        have alike := Snapshot.alike_of_unpinned
          (same.trans (Snapshot.unpinned_of (sound _ b keptBase).2.unpinned).symm)
        exact ⟨s, there, rfl, by rw [alike.base, root.2]⟩
      obtain ⟨good, kept, only, turned⟩ := ih grown later (by simpa using apart)
      refine ⟨good, (List.prefix_append _ _).trans kept, fun t there => ?_, turned⟩
      rcases only t there with before | after
      · rcases List.mem_append.mp before with before | new
        · exact .inl before
        · exact .inr (by simp_all)
      · exact .inr (by simp [after])
    · have fewer : ((listed ++ rest).map (·.id)).Nodup :=
        apart.sublist (List.Sublist.map _ (List.Sublist.append_left (List.sublist_cons_self _ _) _))
      obtain ⟨good, kept, only, turned⟩ := ih held later fewer
      refine ⟨good, kept, fun t there => ?_, fun dir out t there => ?_⟩
      · exact (only t there).imp_right fun after => by simp [after]
      · rcases List.mem_cons.mp out with rfl | out
        · have present := only t there
          simpa using (fresh t (by simpa using present)).symm
        · exact turned dir out t there

omit [SerdeJson] [Zstd] [Xxh3] in
theorem byStep_perm (snapshots : List Snapshot) : (byStep snapshots).Perm snapshots :=
  List.perm_insertionSort _ _

omit [SerdeJson] [Zstd] [Xxh3] in
theorem isOrphan_iff {dir : Directory} : isOrphan m dir = true ↔
    (∀ text, dir ≠ .foreign text) ∧ ∀ s ∈ m.snapshots, dir ≠ .uuid s.id := by
  cases dir with
  | foreign text => simp [isOrphan]
  | variant text => simp [isOrphan]
  | uuid id =>
    simp only [isOrphan, Bool.not_eq_true', List.any_eq_false, beq_iff_eq, ne_eq, reduceCtorEq,
      not_false_eq_true,
      implies_true, true_and, Directory.uuid.injEq]
    exact forall₂_congr fun s _ => not_congr eq_comm

omit [SerdeJson] [Zstd] [Xxh3] in
/-- The orphans are the names under which something lies and that pass for one. -/
theorem mem_orphanDirs {dir : Directory} : dir ∈ orphanDirs files m ↔
    (∃ p, p.under dir = true ∧ (files.find? p).isSome = true) ∧ isOrphan m dir = true := by
  simp only [orphanDirs, Storage.listSnapshots, List.mem_dedup, List.mem_filterMap, List.mem_filter,
    FileStore.mem_names files]
  constructor
  · rintro ⟨p, ⟨found, _⟩, chosen⟩
    split at chosen <;> try contradiction
    all_goals
      split at chosen <;> try contradiction
      rename_i orphan
      obtain rfl := Option.some.inj chosen
      exact ⟨⟨_, by simp [Path.under], found⟩, orphan⟩
  · rintro ⟨⟨p, inside, found⟩, orphan⟩
    refine ⟨p, ⟨found, ?_⟩, ?_⟩ <;> rcases Path.under_iff.mp inside with rfl | ⟨name, rfl⟩ <;> simp [orphan]

omit [SerdeJson] [Zstd] [Xxh3] in
/-- The directories of `orphanDirs` are those of no listed snapshot. -/
theorem orphanDirs_apart {dir : Directory} (there : dir ∈ orphanDirs files m) {t : Snapshot}
    (listed : t ∈ m.snapshots) : dir ≠ .uuid t.id := by
  exact (isOrphan_iff.mp (mem_orphanDirs.mp there).2).2 t listed

omit [SerdeJson] [Zstd] [Xxh3] in
theorem filterMap_sublist {α β : Type} {f : α → Option β} {g : β → α} {items : List α}
    (back : ∀ a b, f a = some b → g b = a) : List.Sublist ((items.filterMap f).map g) items := by
  induction items with
  | nil => exact .slnil
  | cons a rest ih =>
    cases made : f a with
    | none => simpa [made] using ih.cons a
    | some b => simpa [made, back a b made] using ih.cons_cons a

/-- A file of a directory nothing listed is named by goes. -/
theorem deleteRejects_holding {used : Set Uuid} {P : List Snapshot → Prop}
    {now listed : List Snapshot} {start : Files} {rejects : List Directory}
    {fail : MoonclipError → World → Prop} (kept : now ⊆ listed)
    (turned : ∀ dir ∈ rejects, ∀ t ∈ listed, dir ≠ .uuid t.id)
    (files : Files) : Triple
      (fun w => (Holding buffers used a P now start w ∧ w.manifest.snapshots = listed) ∧
        ∀ id ∈ w.manifest.ranksWritten, ∃ s ∈ listed, s.id = id)
      ((rejects.flatMap (filesIn files)).forM Storage.delete)
      (fun _ w => (Holding buffers used a P now start w ∧ w.manifest.snapshots = listed) ∧
        ∀ id ∈ w.manifest.ranksWritten, ∃ s ∈ listed, s.id = id) fail := by
  refine Triple.forM fun p there => ?_
  obtain ⟨dir, out, inside⟩ := List.mem_flatMap.mp there
  have inside := Path.under_iff.mp (mem_filesIn.mp inside).1
  have spared : ∀ t ∈ listed, p.belongsTo t.id = false := by
    intro t present
    rcases inside with rfl | ⟨name, rfl⟩
    · rfl
    · simpa [Path.belongsTo] using turned dir out t present
  have other : p ≠ .manifestJson := by
    rintro rfl
    simp at inside
  refine Storage.delete_spec (fun w held => held) fun w held => ?_
  obtain ⟨⟨held, rfl⟩, tidy⟩ := held
  refine ⟨⟨held.delete other (fun t present => spared t (kept present)) spared fun id written => ?_,
    rfl⟩, tidy⟩
  obtain ⟨t, present, rfl⟩ := tidy id written
  exact spared t present

/-- Recovery lists what was listed and more that was saved; on record it leaves
what is there. -/
theorem recoverOrReclaimOrphans_holding {used : Set Uuid} {P : List Snapshot → Prop}
    {now : List Snapshot} {start : Files} {e : Enumeration} {fail : MoonclipError → World → Prop} :
    Triple (fun w => (Holding buffers used a P now start w ∧ w.manifest.snapshots = now) ∧
        ∀ id ∈ w.manifest.ranksWritten, ∃ s ∈ now, s.id = id)
      (recoverOrReclaimOrphans e)
      (fun recovered w => Holding buffers used a P now start w ∧ now ⊆ w.manifest.snapshots ∧
        (recovered = false → w.manifest.snapshots = now)) fail := by
  refine Triple.get_bind fun w₀ => ?_
  refine Triple.learn (fun w pre => pre.2) fun ⟨⟨held, same⟩, tidy⟩ => ?_
  extract_lets files orphans candidates
  have restored : ∀ c ∈ byStep candidates, Restored a files c ∧ Directory.uuid c.id ∈ orphans := by
    intro c there
    obtain ⟨dir, out, rebuilt⟩ := List.mem_filterMap.mp ((byStep_perm _).subset there)
    obtain ⟨k, kept, rfl, rest⟩ := candidateOf_kept held.sound held.housed rebuilt
    exact ⟨⟨k, kept, rest⟩, out⟩
  have unlisted : ∀ dir ∈ orphans, ∀ t ∈ now, dir ≠ .uuid t.id := by
    intro dir out t listed
    exact orphanDirs_apart ((e.perm _).subset out) (same ▸ listed)
  have apart : ((now ++ byStep candidates).map (·.id)).Nodup := by
    have once : orphans.Nodup := (e.perm _).nodup_iff.mpr (List.nodup_dedup _)
    have dirs : ((byStep candidates).map fun s => Directory.uuid s.id).Nodup := by
      refine (((byStep_perm _).map _).nodup_iff.mpr (once.sublist (filterMap_sublist fun dir s made => ?_)))
      obtain ⟨_, _, same, _⟩ := candidateOf_kept held.sound held.housed made
      exact same.symm
    have ids : ((byStep candidates).map (·.id)).Nodup := by
      have twice : (((byStep candidates).map (·.id)).map Directory.uuid).Nodup := by
        rwa [List.map_map]
      exact List.Nodup.of_map _ twice
    rw [List.map_append, List.nodup_append]
    refine ⟨same ▸ held.listed.distinct, ids, fun id here id' there clash => ?_⟩
    obtain ⟨t, listed, rfl⟩ := List.mem_map.mp here
    obtain ⟨c, candidate, rfl⟩ := List.mem_map.mp there
    exact unlisted _ (restored c candidate).2 t listed (by rw [clash])
  have admitted :=
    admitting_listed (fun id k kept => ⟨(held.sound id k kept).1, (held.sound id k kept).2.toShaped⟩)
    (same ▸ held.listed) (fun c there => (restored c there).1) apart
  have looks : ¬ orphans.any (candidatePanics e files) = true := by
    simp [candidatePanics_kept held.sound held.housed, files]
  rw [same, if_neg looks]
  cases outcome : admitting now (byStep candidates) with
  | mk listed dangling =>
    rw [outcome] at admitted
    obtain ⟨good, kept, only, turned⟩ := admitted
    dsimp -zeta only
    extract_lets rejects recovered snapshots
    have order : snapshots.Perm listed := by
      simp only [snapshots]
      split
      · exact byStep_perm listed
      · exact .refl _
    have spared : ∀ dir ∈ rejects, ∀ t ∈ snapshots, dir ≠ .uuid t.id := by
      intro dir out t present
      have present := order.subset present
      rcases List.mem_append.mp out with lost | dangles
      · obtain ⟨out, lost⟩ := List.mem_filter.mp lost
        rcases only t present with before | after
        · exact unlisted dir out t before
        · rintro rfl
          obtain ⟨dir', _, rebuilt⟩ := List.mem_filterMap.mp ((byStep_perm _).subset after)
          obtain ⟨_, _, rfl, _⟩ := candidateOf_kept held.sound held.housed rebuilt
          rw [rebuilt] at lost
          contradiction
      · exact turned dir dangles t present
    have grown : now ⊆ snapshots := fun t present => order.symm.subset (kept.subset present)
    refine Triple.bind (fun _ w => (Holding buffers used a P now start w ∧
        w.manifest.snapshots = snapshots) ∧ ∀ id ∈ w.manifest.ranksWritten, ∃ s ∈ snapshots, s.id = id)
      (Triple.modified fun w pre => ?_) fun _ => ?_
    · obtain ⟨rfl, _⟩ := pre
      refine ⟨⟨held.relist (good.perm order) held.written, rfl⟩, fun id written => ?_⟩
      obtain ⟨t, present, same⟩ := tidy id written
      exact ⟨t, grown present, same⟩
    · refine Triple.bind _ (deleteRejects_holding grown spared files) fun _ => Triple.pure fun w left => ?_
      obtain ⟨⟨held, is⟩, _⟩ := left
      refine ⟨held, is ▸ grown, fun none => ?_⟩
      have short : listed.length ≤ now.length := by simpa [recovered] using none
      have whole : now = listed := kept.eq_of_length_le short
      rw [is]
      simp only [snapshots, none, Bool.false_eq_true, if_false, whole]

variable [LawfulSerdeJson]

/-- Opening a store whose files are safe succeeds; everything that was on record
is listed, and what is on record afterwards is that or the list in memory. -/
theorem openStore_holding {used : Set Uuid} {P : List Snapshot → Prop} {start : Files} {e : Enumeration}
    {cfg : Config} (rank : cfg.rank = 0) (sound : a.Sound buffers) (ids : ∀ id k, a id = some k → id ∈ used)
    (safe : Safe a P start) :
    Triple (fun w => (∀ p body, w.disk.accepts p body = true → body.length < 2 ^ 64) ∧
        w.disk.files = start ∧ w.disk.journal = [])
      (openStore cfg e)
      (fun _ w => ∃ before now, P before ∧ before ⊆ w.manifest.snapshots ∧
        Holding buffers used a (fun l => l = before ∨ l = w.manifest.snapshots) now start w)
      fun _ _ => False := by
  obtain ⟨housed, m, recorded, kind⟩ := safe
  obtain ⟨m', loaded, same, fewer⟩ := ManifestIo.loadManifest_onRecord cfg
    (fun id k kept => ⟨(sound id k kept).1, (sound id k kept).2.toShaped⟩) recorded
  refine Triple.get_bind fun w₀ => ?_
  refine Triple.learn (fun w pre => pre.2) fun ⟨bounded, files, journal⟩ => ?_
  refine Triple.bind (fun read w => w = w₀ ∧ read = m')
    (Triple.returning (fun read w made pre => ⟨pre.1, ?_⟩) fun err w made _ => ?_) fun read => ?_
  · rw [files, loaded] at made
    exact (Except.ok.inj made).symm
  · rw [files, loaded] at made
    contradiction
  refine Triple.bind (fun _ w => (Holding buffers used a (fun l => l = m.snapshots) m.snapshots start w ∧
      w.manifest.snapshots = m.snapshots) ∧ ∀ id ∈ w.manifest.ranksWritten, ∃ s ∈ m.snapshots, s.id = id)
    (Triple.modified fun w pre => ?_) fun _ => ?_
  · obtain ⟨rfl, rfl⟩ := pre
    refine ⟨⟨{
      sound := sound
      ids := ids
      bounded := bounded
      replayed := by rw [journal, files]; rfl
      always := by rw [journal, always_nil]; exact ⟨housed, m, recorded, rfl⟩
      housed := files ▸ housed
      recorded := ⟨m, files ▸ recorded, rfl⟩
      allowed := rfl
      listed := by rw [files, same]; exact recorded.listed
      written := by rw [files]; exact fun id written => recorded.written id (fewer id written)
      source := nofun
      retained := nofun }, same⟩, fun id written => recorded.tidy id (fewer id written)⟩
  · rw [if_pos rank]
    refine Triple.bind _ recoverOrReclaimOrphans_holding fun recovered => ?_
    cases recovered with
    | false =>
      refine Triple.pure fun w left => ?_
      obtain ⟨held, grown, same⟩ := left
      exact ⟨m.snapshots, m.snapshots, kind, grown, held.mono fun _ => .inl⟩
    | true =>
      refine Triple.ignoring fun w left => ?_
      obtain ⟨held, grown, _⟩ := left
      have recorded := ManifestIo.persist_holding w ⟨held, rfl⟩
      cases ran : ManifestIo.persist w with
      | ok u after =>
        rw [ran] at recorded
        obtain ⟨held, ready⟩ := recorded
        exact ⟨m.snapshots, _, kind, ready.same ▸ grown, ready.same ▸ held⟩
      | error err after =>
        rw [ran] at recorded
        obtain ⟨held, same⟩ := recorded
        exact ⟨m.snapshots, _, kind, same ▸ grown, held.mono fun _ => .inl⟩

end Recovery

end
end Moonclip
