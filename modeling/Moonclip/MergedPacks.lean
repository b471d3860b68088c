import Moonclip.Ledgers
import Moonclip.PackWriters

/-! The packs of a full merge, one rank after another, and what publishing the merged
snapshot and unlinking what it replaces leave of them. -/
namespace Moonclip
open Library.Codec Library.Effect Library.Files Library.Tables

namespace Merger
variable [Zstd] [Xxh3] [SerdeJson]

/-- The tensors that went into a rank's pack: read from files that outside the merge's
own directory are as they were. -/
def mergedInto (before : Files) (base last : Snapshot) (context : MergedContext) (r : Nat)
    (pts : List ProcessedTensor) : Prop :=
  ∃ (files : Files) (source : Snapshot) (sourceRank : RankEntry),
    (∀ p, p.belongsTo context.id = false → files.find? p = before.find? p) ∧
    sourceOf base last r = some (source, sourceRank) ∧
    sourceRank.tensors.mapM (mergeTensor files base source r context.compression) = .ok pts

/-- What the pack of one rank says of the merged snapshot. -/
def describeMerged (context : MergedContext) (worldSize : Nat) (entry : RankEntry) : PackDescriptor where
  snapshotId := context.id
  step := context.step
  createdAt := context.createdAt
  baseSnapshotId := none
  metadata := context.metadata
  compression := context.compression
  worldSize := worldSize
  rank := entry

/-- A merge under way: the ranks `done` have their packs, and nothing else is new. -/
structure Merging (w : World) (base last : Snapshot) (context : MergedContext) (worldSize : Nat)
    (done : List (Nat × RankEntry)) (s : World) : Prop where
  manifest : s.manifest = w.manifest
  accepts : s.disk.accepts = w.disk.accepts
  beside : ∀ p, p.belongsTo context.id = false → s.disk.files.find? p = w.disk.files.find? p
  packs : ∀ r e, (r, e) ∈ done → RankWritten s.disk.files context.id (describeMerged context worldSize)
    (mergedInto w.disk.files base last context) r e
  only : OnlyPacks s.disk.files context.id (· ∈ done.map Prod.fst)

variable {w s : World} {base last : Snapshot} {context : MergedContext} {worldSize rank : Nat}
  {done : List (Nat × RankEntry)} {entry : RankEntry} {parts : List Bytes}

/-- Where nothing is in the directory yet. -/
theorem Merging.begin (absent : ∀ name, w.disk.files.find? (.snapshots (.uuid context.id) name) = none) :
    Merging w base last context worldSize [] w where
  manifest := rfl
  accepts := rfl
  beside _ _ := rfl
  packs := nofun
  only name _ found := by simp [absent name] at found

/-- One more rank's pack. -/
theorem Merging.put (merging : Merging w base last context worldSize done s) (new : rank ∉ done.map Prod.fst)
    (made : mergedPack s.disk.files base last context worldSize rank = .ok (some (entry, parts)))
    (fits : (pad s.disk.pageSize parts.flatten).length < 2 ^ 64) :
    Merging w base last context worldSize (done ++ [(rank, entry)])
      { s with disk :=
        s.disk.change (.put (packPath context.id rank) (pad s.disk.pageSize parts.flatten)) } where
  manifest := merging.manifest
  accepts := merging.accepts
  beside p apart := by
    have other : p ≠ packPath context.id rank := by
      rintro rfl
      simp at apart
    exact (FileStore.find?_put_of_ne other).trans (merging.beside p apart)
  packs r e listed := by
    rcases List.mem_append.mp listed with before | here
    · have other : packPath context.id r ≠ packPath context.id rank := by
        intro same
        apply new
        rw [← (packPath_inj.mp same).2]
        exact List.mem_map_of_mem before
      obtain ⟨own, pts, parts', page, went, each, tensors, packed, fits', stored⟩ := merging.packs r e before
      exact ⟨own, pts, parts', page, went, each, tensors, packed, fits',
        (FileStore.find?_put_of_ne other).trans stored⟩
    · obtain ⟨rfl, rfl⟩ := Prod.mk.inj (List.mem_singleton.mp here)
      unfold mergedPack at made
      cases source : sourceOf base last r with
      | none => simp [source] at made
      | some found =>
        obtain ⟨source', sourceRank⟩ := found
        simp only [source, Library.Outcome.bind_eq_ok, Library.Outcome.pure_eq_ok, Option.some.injEq,
          Prod.mk.injEq] at made
        obtain ⟨merged, rewritten, parts', packed, rfl, rfl⟩ := made
        have each : ∀ pt ∈ merged, Matches pt := by
          intro pt there
          obtain ⟨e, _, ran⟩ := Library.Outcome.exists_item (Library.Outcome.mapM_eq_ok.mp rewritten) there
          exact matches_mergeTensor ran
        exact ⟨rfl, merged, parts', _, ⟨_, source', sourceRank, merging.beside, source, rewritten⟩,
          each, rfl, packed,
          fits, FileStore.find?_put_self⟩
  only name pack found := by
    by_cases here : name = .rankPack rank
    · exact ⟨rank, by simp, here⟩
    · have other : Path.snapshots (.uuid context.id) name ≠ packPath context.id rank := by
        intro same
        exact here (Path.snapshots.inj same).2
      rw [Disk.files_change, Change.apply, FileStore.find?_put_of_ne other] at found
      obtain ⟨r, known, rfl⟩ := merging.only name pack found
      exact ⟨r, by simp [known], rfl⟩

theorem mergeRank_merging (bounded : ∀ p body, w.disk.accepts p body = true → body.length < 2 ^ 64)
    (known : (sourceOf base last rank).isSome = true) (new : rank ∉ done.map Prod.fst) :
    Triple (Merging w base last context worldSize done) (mergeRank base last context worldSize rank)
      (fun out s => ∃ entry, out = some (rank, entry) ∧
        Merging w base last context worldSize (done ++ [(rank, entry)]) s) fun _ _ => True := by
  apply Triple.get_bind
  intro s
  cases made : mergedPack s.disk.files base last context worldSize rank with
  | error e => exact Triple.returning_error rfl fun _ _ => trivial
  | ok merged =>
    apply Triple.returning_ok rfl
    cases merged with
    | none =>
      unfold mergedPack at made
      obtain ⟨found, source⟩ := Option.isSome_iff_exists.mp known
      simp [source] at made
    | some found =>
      obtain ⟨entry, parts⟩ := found
      apply Triple.bind fun _ => Merging w base last context worldSize (done ++ [(rank, entry)])
      · apply Storage.put_spec
        · rintro s' ⟨rfl, merging⟩ taken
          rw [merging.accepts] at taken
          exact merging.put new made (bounded _ _ taken)
        · exact fun _ _ _ => trivial
      · exact fun _ => Triple.pure fun s merging => ⟨entry, rfl, merging⟩

/-- A merge that gets through its ranks has written a pack for each, by induction on
the ranks it has left. -/
theorem mergeRanks_merging (bounded : ∀ p body, w.disk.accepts p body = true → body.length < 2 ^ 64)
    (done : List (Nat × RankEntry)) {ranks : List Nat}
      (known : ∀ r ∈ ranks, (sourceOf base last r).isSome = true)
    (once : (done.map Prod.fst ++ ranks).Nodup) :
    Triple (Merging w base last context worldSize done) (mergeRanks base last context worldSize ranks)
      (fun entries s => entries.map Prod.fst = ranks ∧
        Merging w base last context worldSize (done ++ entries) s) fun _ _ => True := by
  induction ranks generalizing done with
  | nil => exact Triple.pure fun s merging => ⟨rfl, by simpa using merging⟩
  | cons rank rest ih =>
    have new : rank ∉ done.map Prod.fst := by
      intro there
      exact (List.nodup_append.mp once).2.2 rank there rank (by simp) rfl
    apply Triple.bind _ (mergeRank_merging bounded (known rank (by simp)) new)
    intro out
    apply Triple.learn (P := ∃ entry, out = some (rank, entry)) fun s ⟨entry, same, _⟩ => ⟨entry, same⟩
    rintro ⟨entry, rfl⟩
    have next := ih (done ++ [(rank, entry)]) (fun r there => known r (by simp [there])) (by simpa using once)
    apply Triple.bind (fun entries s => entries.map Prod.fst = rest ∧
      Merging w base last context worldSize (done ++ [(rank, entry)] ++ entries) s)
    · apply next.weaken
      · rintro s ⟨entry', same, merging⟩
        obtain ⟨_, rfl⟩ := Prod.mk.inj (Option.some.inj same)
        exact merging
      · exact fun _ _ left => left
      · exact fun _ _ _ => trivial
    · intro others
      apply Triple.pure
      rintro s ⟨ranks, merging⟩
      exact ⟨by simp [ranks], by simpa using merging⟩

omit [Zstd] [Xxh3] [SerdeJson] in
theorem allRanks_nodup : (allRanks base last).Nodup := List.nodup_dedup _

omit [Zstd] [Xxh3] [SerdeJson] in
theorem allRanks_known {r : Nat} (there : r ∈ allRanks base last) : (sourceOf base last r).isSome = true := by
  simp only [allRanks, List.mem_dedup, List.mem_insertionSort, List.mem_append,
    Std.ExtTreeMap.mem_keys] at there
  unfold sourceOf
  split
  · rfl
  · rename_i absent
    rcases there with ofBase | ofLast
    · obtain ⟨e, found⟩ := exists_of_mem ofBase
      simp [found]
    · obtain ⟨e, found⟩ := exists_of_mem ofLast
      simp [found] at absent

/-- The list is `l`, and the packs in the directory of `id` are what they were. -/
structure Keeps (id : Uuid) (files : Files) (l : List Snapshot) (s : World) : Prop where
  list : s.manifest.snapshots = l
  packs : ∀ name, name.isPack = true →
    s.disk.files.find? (.snapshots (.uuid id) name) = files.find? (.snapshots (.uuid id) name)

variable {id : Uuid} {files : Files} {l : List Snapshot}

omit [Zstd] [Xxh3] in
theorem persist_keeps : Triple (Keeps id files l) ManifestIo.persist (fun _ => Keeps id files l)
    fun _ => Keeps id files l := by
  apply ManifestIo.persist_invariant
  · exact fun w ids keeps => ⟨keeps.list, keeps.packs⟩
  · intro w p body keeps wrote
    refine ⟨keeps.list, fun name pack => ?_⟩
    have other : Path.snapshots (.uuid id) name ≠ p := by
      rcases wrote with rfl | ⟨id', rfl⟩
      · simp
      · rintro same
        simp [(Path.snapshots.inj same).2, FileName.isPack] at pack
    exact (FileStore.find?_put_of_ne other).trans (keeps.packs name pack)

omit [Zstd] [Xxh3] in
theorem publish_keeps {edit : List Snapshot → List Snapshot} {after : World}
    (ran : publish edit w = .ok () after) : Keeps id w.disk.files (edit w.manifest.snapshots) after := by
  unfold publish at ran
  dsimp only at ran
  split at ran
  · rename_i _ w' persisted
    obtain ⟨_, rfl⟩ := EStateM.Result.ok.inj ran
    have start : Keeps id w.disk.files (edit w.manifest.snapshots)
        { w with manifest := { w.manifest with snapshots := edit w.manifest.snapshots } } :=
      ⟨rfl, fun _ _ => rfl⟩
    exact persist_keeps.ok start persisted
  · contradiction

omit [Zstd] [Xxh3] [SerdeJson] in
/-- What is unlinked lies elsewhere. -/
theorem unlinkSnapshots_keeps {doomed : List Snapshot} (fail : MoonclipError → World → Prop)
    (apart : ∀ s ∈ doomed, ∀ p ∈ s.filesOf none, p.belongsTo id = false) :
    Triple (Keeps id files l) (Coordinator.unlinkSnapshots doomed) (fun _ => Keeps id files l) fail := by
  apply Triple.get_keep
  intro w
  split
  · exact Triple.pure fun _ keeps => keeps
  · apply Triple.forM
    intro p listed
    refine Storage.delete_spec (fun _ keeps => keeps) fun s keeps => ?_
    refine ⟨keeps.list, fun name pack => ?_⟩
    have other : Path.snapshots (.uuid id) name ≠ p := by
      rintro rfl
      obtain ⟨t, there, names⟩ := List.mem_flatMap.mp listed
      rcases List.mem_append.mp names with named | ranks
      · simpa [Path.belongsTo] using apart t there _ named
      · have same := (Path.snapshots.inj (List.mem_singleton.mp ranks)).2
        simp [same, FileName.isPack] at pack
    exact (FileStore.find?_delete_of_ne other).trans (keeps.packs name pack)

theorem foldGroup_eq_ok {deltas : List Snapshot} {out : MergeOutcome} {after : World}
    (ran : foldGroup base deltas last context w = .ok out after) : ∃ entries mid published,
      mergeRanks base last context (allRanks base last).length (allRanks base last) w = .ok entries mid ∧
      publish (folded (deltas.map (·.id) ++ [base.id]) (mergedSnapshot context entries)) mid =
        .ok () published ∧
      Coordinator.unlinkSnapshots (deltas ++ [base]) published = .ok () after := by
  unfold foldGroup at ran
  obtain ⟨entries, mid, merged, ran⟩ := bind_eq_ok.mp ran
  obtain ⟨_, published, listed, ran⟩ := bind_eq_ok.mp ran
  obtain ⟨_, _, unlinked, ran⟩ := bind_eq_ok.mp ran
  obtain ⟨_, rfl⟩ := pure_eq_ok.mp ran
  exact ⟨entries, mid, published, merged, listed, unlinked⟩

/-- A merge that came to something had a group to fold. -/
theorem doFullMerge_eq_ok {algo : CompressionAlgo} {now : Nat} {after : World}
    (ran : doFullMerge algo id now w = .ok .merged after) : ∃ base deltas last claimed released,
      fullPlan w.manifest = .ok (.fold base deltas) ∧ deltas.getLast? = some last ∧
      foldGroup base deltas last (mergedContext id now algo last deltas.length)
        { w with inFlight := claimed } =
        .ok .merged released ∧
      after.manifest = released.manifest ∧ after.disk = released.disk := by
  unfold doFullMerge at ran
  rw [get_bind_apply] at ran
  obtain ⟨plan, _, decided, ran⟩ := bind_eq_ok.mp ran
  obtain ⟨planned, rfl⟩ := returning_eq_ok.mp decided
  cases plan with
  | nothing =>
    obtain ⟨same, _⟩ := pure_eq_ok.mp ran
    contradiction
  | unfinished =>
    obtain ⟨same, _⟩ := pure_eq_ok.mp ran
    contradiction
  | fold base deltas =>
    dsimp only [withClaim] at ran
    rw [get_bind_apply] at ran
    cases free : w.inFlight.claim (base.id :: deltas.map (·.id)) with
    | none =>
      rw [free] at ran
      obtain ⟨same, _⟩ := pure_eq_ok.mp ran
      contradiction
    | some claimed =>
      rw [free] at ran
      dsimp only [bracket] at ran
      split at ran
      · rename_i released folded
        obtain ⟨rfl, rfl⟩ := EStateM.Result.ok.inj ran
        cases newest : deltas.getLast? with
        | none =>
          rw [newest] at folded
          obtain ⟨same, _⟩ := pure_eq_ok.mp folded
          contradiction
        | some last =>
          rw [newest] at folded
          exact ⟨base, deltas, last, claimed, _, planned, newest, folded, rfl, rfl⟩
      · contradiction

/-- Nothing has gone by this identifier yet. -/
structure Unused (id : Uuid) (w : World) : Prop where
  unlisted : ∀ s ∈ w.manifest.snapshots, s.id ≠ id
  unnamed : ∀ s ∈ w.manifest.snapshots, ∀ p ∈ s.filesOf none, p.belongsTo id = false
  absent : ∀ name, w.disk.files.find? (.snapshots (.uuid id) name) = none

omit [Zstd] [Xxh3] [SerdeJson] in
/-- Where nothing else goes by its identifier, the merged snapshot is the one found. -/
theorem findSnapshot_folded {m : Manifest} {group : List Uuid} {merged : Snapshot} {before : List Snapshot}
    (list : m.snapshots = folded group merged before) (unlisted : ∀ s ∈ before, s.id ≠ merged.id) :
    m.findSnapshot merged.id = some merged := by
  have mem : ∀ t, t ∈ m.snapshots ↔ t ∈ without group before ∨ t = merged := by
    intro t
    rw [list, folded, List.mem_insertionSort, List.mem_append, List.mem_singleton]
  cases found : m.findSnapshot merged.id with
  | none => simpa using List.find?_eq_none.mp found merged ((mem merged).mpr (.inr rfl))
  | some t =>
    rcases (mem t).mp (List.mem_of_find?_eq_some found) with before | rfl
    · have same : t.id = merged.id := by simpa using List.find?_some found
      exact absurd same (unlisted t (List.mem_of_mem_filter before))
    · rfl

variable [LawfulSerdeJson]

/-- The packs of a folded group tell everything about the snapshot in its place. -/
theorem foldGroup_selfDescribed {deltas : List Snapshot} {after : World}
    (bounded : ∀ p body, w.disk.accepts p body = true → body.length < 2 ^ 64) (unused : Unused context.id w)
    (group : ∀ s ∈ deltas ++ [base], s ∈ w.manifest.snapshots)
    (ran : foldGroup base deltas last context w = .ok .merged after) : ∃ t,
      after.manifest.findSnapshot context.id = some t ∧ (allRanks base last ≠ [] →
        SelfDescribed after.disk.files t (mergedInto w.disk.files base last context)) := by
  obtain ⟨entries, mid, published, merged, listed, unlinked⟩ := foldGroup_eq_ok ran
  have start : Merging w base last context (allRanks base last).length [] w := Merging.begin unused.absent
  obtain ⟨ranks, merging⟩ := (mergeRanks_merging bounded [] (fun r => allRanks_known)
    (by simpa using allRanks_nodup)).ok start merged
  have kept := (unlinkSnapshots_keeps (fun _ _ => True) fun s there =>
    unused.unnamed s (group s there)).ok (publish_keeps listed) unlinked
  have distinct : (entries.map Prod.fst).Nodup := ranks ▸ allRanks_nodup
  have size : (mergedSnapshot context entries).ranks.size = (allRanks base last).length := by
    rw [← ranks, List.length_map]
    exact size_ofList distinct
  have known : ∀ r, r ∈ entries.map Prod.fst → r ∈ (mergedSnapshot context entries).ranks := by
    intro r there
    obtain ⟨⟨r, e⟩, listed, rfl⟩ := List.mem_map.mp there
    exact mem_of_getElem? (getElem?_ofList_of_mem distinct listed)
  refine ⟨mergedSnapshot context entries, ?_, fun anyone => ?_⟩
  · apply findSnapshot_folded kept.list
    rw [merging.manifest]
    exact unused.unlisted
  · obtain ⟨r, others, split⟩ := List.exists_cons_of_ne_nil anyone
    apply selfDescribed rfl (known r (by simp [ranks, split]))
    · intro r e entry
      rw [size]
      exact (merging.packs r e (mem_of_getElem?_ofList entry)).congr (kept.packs _ rfl)
    · intro name pack found
      have before : (mid.disk.files.find? (.snapshots (.uuid context.id) name)).isSome = true := by
        rw [← kept.packs name pack]
        exact found
      obtain ⟨r, there, rfl⟩ := merging.only name pack before
      exact ⟨r, known r there, rfl⟩

/-- The packs a full merge leaves tell everything about the snapshot it lists. -/
theorem doFullMerge_selfDescribed {algo : CompressionAlgo} {now : Nat} {after : World}
    (bounded : ∀ p body, w.disk.accepts p body = true → body.length < 2 ^ 64) (unused : Unused id w)
    (ran : doFullMerge algo id now w = .ok .merged after) : ∃ base deltas last t,
      fullPlan w.manifest = .ok (.fold base deltas) ∧ deltas.getLast? = some last ∧
      after.manifest.findSnapshot id = some t ∧ (allRanks base last ≠ [] →
        SelfDescribed after.disk.files t
          (mergedInto w.disk.files base last (mergedContext id now algo last deltas.length))) := by
  obtain ⟨base, deltas, last, claimed, released, planned, newest, ran, manifest, disk⟩ :=
    doFullMerge_eq_ok ran
  obtain ⟨ofBase, ofDeltas⟩ := fullPlan_group planned
  have group : ∀ s ∈ deltas ++ [base], s ∈ w.manifest.snapshots := by
    intro s listed
    rcases List.mem_append.mp listed with delta | root
    · exact ofDeltas s delta
    · exact List.mem_singleton.mp root ▸ ofBase
  rw [manifest, disk]
  obtain ⟨t, found, described⟩ := foldGroup_selfDescribed (w := { w with inFlight := claimed }) bounded
    ⟨unused.unlisted, unused.unnamed, unused.absent⟩ group ran
  exact ⟨base, deltas, last, t, planned, newest, found, described⟩

end Merger
end Moonclip
