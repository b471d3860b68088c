import Moonclip.Keeping

/-! Recording a list and removing files: the ranks files go down before the index
that names them, and a file goes only after the list without its snapshot is on
record. -/
namespace Moonclip
open Library.Codec Library.Effect Library.Files Library.Tables

section
variable [Zstd] [Xxh3] [SerdeJson] {buffers : Set Bytes} {used : Set Uuid} {a : Archive} {k : Kept}
  {P : List Snapshot → Prop} {now : List Snapshot} {start : Files} {w : World} {m : Manifest}

namespace ManifestIo

omit [Zstd] [Xxh3] [SerdeJson] in
/-- A snapshot with one rank is never written into the index. -/
theorem outOfLine_of_shaped {s : Snapshot} (shaped : k.Shaped a) (same : s.unpinned = k.snapshot) :
    outOfLine s = true := by
  have alike := Snapshot.alike_of_unpinned (same.trans (Snapshot.unpinned_of shaped.unpinned).symm)
  have there : s.ranks.isEmpty = false := by
    rw [alike.ranks]
    cases empty : k.snapshot.ranks.isEmpty with
    | false => rfl
    | true =>
      have found := shaped.rankEntry
      rw [Std.ExtTreeMap.isEmpty_iff.mp empty] at found
      simp at found
  simp [outOfLine, there, alike.finalized, shaped.finalized]

omit [Zstd] [Xxh3] in
theorem ranksText_of_listed {files : Files} {s : Snapshot} {text : Bytes} (page : Nat)
    (sound : ∀ id k, a id = some k → k.Shaped a) (listed : Listed a files m.snapshots)
    (present : s ∈ m.snapshots) (encoded : SerdeJson.ranks.toVec ⟨s.id, s.ranks⟩ = .ok text) :
    ∃ k, a s.id = some k ∧ RanksText k (pad page text) := by
  obtain ⟨k, kept, id, same, _⟩ := listed.id_eq present
  have alike := Snapshot.alike_of_unpinned
    (same.trans (Snapshot.unpinned_of (sound s.id k kept).unpinned).symm)
  refine ⟨k, kept, text, page, ?_, rfl⟩
  rw [id, ← alike.ranks]
  exact encoded

/-- One turn of the loop: the ranks of one more listed snapshot are in their file. -/
theorem writeRanks_holding {done : List Snapshot} {s : Snapshot} (present : s ∈ m.snapshots) :
    Triple (fun w => (Holding buffers used a P now start w ∧ w.manifest = m) ∧
        Written a w.disk.files (done.map (·.id)).toFinset)
      (writeRanks s)
      (fun _ w => (Holding buffers used a P now start w ∧ w.manifest = m) ∧
        Written a w.disk.files ((done ++ [s]).map (·.id)).toFinset)
      (fun _ w => Holding buffers used a P now start w ∧ w.manifest.snapshots = m.snapshots) := by
  refine Triple.bind (fun text w => ((Holding buffers used a P now start w ∧ w.manifest = m) ∧
      Written a w.disk.files (done.map (·.id)).toFinset) ∧
        SerdeJson.ranks.toVec ⟨s.id, s.ranks⟩ = .ok text) ?_ fun text => ?_
  · refine Triple.returning (fun text w made held => ⟨held, ?_⟩) fun e w _ held =>
      ⟨held.1.1, by rw [held.1.2]⟩
    exact Library.Outcome.mapError_eq_ok.mp made
  · refine Storage.put_spec (fun w held _ => ?_) fun w e held => ⟨held.1.1.1, by rw [held.1.1.2]⟩
    obtain ⟨⟨⟨held, rfl⟩, written⟩, encoded⟩ := held
    obtain ⟨k, kept, text⟩ := ranksText_of_listed w.disk.pageSize
      (fun id k kept => (held.sound id k kept).2.toShaped) held.listed present encoded
    refine ⟨⟨held.put_ranks kept text, rfl⟩, fun id there => ?_⟩
    have before := written.put_ranks kept text
    simp only [List.map_append, List.map_cons, List.map_nil, List.toFinset_append, Finset.mem_union,
      List.toFinset_cons, List.toFinset_nil, insert_empty_eq, Finset.mem_singleton] at there
    rcases there with earlier | rfl
    · exact before id earlier
    · exact ⟨k, _, kept, FileStore.find?_put_self, text⟩

/-- What lies between the ranks files and the index: the list is unchanged, and
every snapshot of it has its ranks in a file. -/
structure Ready (a : Archive) (m : Manifest) (w : World) : Prop where
  same : w.manifest.snapshots = m.snapshots
  outOfLine : ∀ s ∈ w.manifest.snapshots, s.id ∈ w.manifest.ranksWritten
  tidy : ∀ id ∈ w.manifest.ranksWritten, ∃ s ∈ w.manifest.snapshots, s.id = id

omit [Zstd] [Xxh3] [SerdeJson] in
theorem ready_recordWritten {files : Files} (sound : ∀ id k, a id = some k → k.Shaped a)
    (listed : Listed a files w.manifest.snapshots) :
    Ready a w.manifest { w with manifest := recordWritten (unwritten w.manifest) w.manifest } where
  same := rfl
  outOfLine s present := by
    obtain ⟨k, kept, _, same, _⟩ := listed.id_eq present
    have outside := outOfLine_of_shaped (sound s.id k kept) same
    simp only [recordWritten, Finset.mem_filter, Finset.mem_union, List.mem_toFinset]
    refine ⟨?_, List.mem_map_of_mem present⟩
    by_cases there : s.id ∈ w.manifest.ranksWritten
    · exact .inl there
    · exact .inr (List.mem_map_of_mem (List.mem_filter.mpr ⟨present, by simp [outside, there]⟩))
  tidy id there := by
    simp only [recordWritten, Finset.mem_filter, List.mem_map] at there
    exact there.2

/-- A persist puts the list in memory on record; one that fails leaves the record. -/
theorem persist_holding : Triple (fun w => Holding buffers used a P now start w ∧ w.manifest = m) persist
    (fun _ w => Holding buffers used a (fun l => P l ∨ l = m.snapshots) m.snapshots start w ∧ Ready a m w)
    (fun _ w => Holding buffers used a P now start w ∧ w.manifest.snapshots = m.snapshots) := by
  refine Triple.get_bind fun w₀ w pre => ?_
  obtain ⟨rfl, held, same⟩ := pre
  suffices Triple (fun w => (Holding buffers used a P now start w ∧ w.manifest = m) ∧
      Written a w.disk.files (([] : List Snapshot).map (·.id)).toFinset) _
      (fun _ w => Holding buffers used a (fun l => P l ∨ l = m.snapshots) m.snapshots start w ∧ Ready a m w)
      fun _ w => Holding buffers used a P now start w ∧ w.manifest.snapshots = m.snapshots from
    this w ⟨⟨held, same⟩, by simp [Written]⟩
  rw [same]
  refine Triple.bind (fun _ w => (Holding buffers used a P now start w ∧ w.manifest = m) ∧
      Written a w.disk.files (unwritten m).toFinset) ?_ fun _ => ?_
  · refine Triple.weaken _ (@Triple.forM_progress _ _ _
      (fun done w => (Holding buffers used a P now start w ∧ w.manifest = m) ∧
        Written a w.disk.files (done.map (·.id)).toFinset) _ _ _ fun done s rest split => ?_)
      (fun _ held => held) (fun _ w held => ⟨held.1, fun id there => ?_⟩) fun _ _ held => held
    · have chosen : s ∈ m.snapshots.filter fun s => (unwritten m).contains s.id := by
        rw [split]
        simp
      exact writeRanks_holding (List.mem_of_mem_filter chosen)
    · refine held.2 id ?_
      simp only [List.mem_toFinset] at there ⊢
      obtain ⟨s, chosen, rfl⟩ := List.mem_map.mp there
      exact List.mem_map.mpr ⟨s, List.mem_filter.mpr ⟨List.mem_of_mem_filter chosen,
        List.contains_iff_mem.mpr there⟩, rfl⟩
  · refine Triple.bind (fun _ w => Holding buffers used a P now start w ∧ Ready a m w)
      (Triple.modified fun w held => ?_) fun _ => ?_
    · obtain ⟨⟨held, rfl⟩, written⟩ := held
      refine ⟨held.relist held.listed fun id there => ?_,
        ready_recordWritten (fun id k kept => (held.sound id k kept).2.toShaped) held.listed⟩
      rcases Finset.mem_union.mp (Finset.mem_filter.mp there).1 with before | now
      · exact held.written id before
      · exact written id now
    · refine Triple.get_bind fun w₁ => ?_
      refine Triple.bind (fun text w => (Holding buffers used a P now start w ∧ Ready a m w) ∧
          SerdeJson.index.toVec (indexOf w.manifest) = .ok text) ?_ fun text => ?_
      · refine Triple.returning (fun text w made held => ?_) fun e w _ held => ?_
        · obtain ⟨rfl, held⟩ := held
          exact ⟨held, Library.Outcome.mapError_eq_ok.mp made⟩
        · obtain ⟨rfl, held⟩ := held
          exact ⟨held.1, held.2.same⟩
      · refine Storage.put_spec (fun w held _ => ?_) fun w e held => ⟨held.1.1, held.1.2.same⟩
        obtain ⟨⟨held, ready⟩, encoded⟩ := held
        have wider := held.mono (Q := fun l => P l ∨ l = m.snapshots) fun _ => .inl
        have put := wider.put_index w.disk.pageSize (.inr ready.same) ready.outOfLine
          ready.tidy encoded
        exact ⟨ready.same ▸ put, ready.same, ready.outOfLine, ready.tidy⟩

end ManifestIo

omit [Zstd] [Xxh3] [SerdeJson] in
/-- The files of a snapshot of one rank are its pack and its ranks. -/
theorem mem_filesOf {s : Snapshot} {p : Path} (shaped : k.Shaped a) (same : s.unpinned = k.snapshot)
    (there : p ∈ s.filesOf none ++ [ranksPath s.id]) : p = packPath s.id 0 ∨ p = ranksPath s.id := by
  have alike := Snapshot.alike_of_unpinned (same.trans (Snapshot.unpinned_of shaped.unpinned).symm)
  have id : k.id = s.id := alike.id.symm
  rcases List.mem_append.mp there with file | ranks
  · simp only [Snapshot.filesOf, List.mem_flatMap, List.mem_filter] at file
    obtain ⟨⟨rank, entry⟩, ⟨listed, _⟩, file⟩ := file
    rw [alike.ranks, shaped.ranks, Std.ExtTreeMap.mem_toList_iff_getElem?_eq_some] at listed
    obtain ⟨_, rfl⟩ : rank = 0 ∧ entry = k.entry := by simpa using mem_of_getElem?_ofList listed
    have none : k.entry.tensors.filterMap (·.filename) = [] := by
      simpa [List.filterMap_eq_nil_iff] using shaped.inPack
    exact .inl (by simpa [none, shaped.packed, Kept.path, id] using file)
  · exact .inr (by simpa using ranks)

namespace Coordinator

omit [Zstd] [Xxh3] [SerdeJson] in
theorem delete_unlisted {p : Path} {id : Uuid} (ids : Set Uuid)
    (file : p = packPath id 0 ∨ p = ranksPath id) (unlisted : id ∉ ids) :
    p ≠ .manifestJson ∧ ∀ other ∈ ids, p.belongsTo other = false := by
  have apart : ∀ other ∈ ids, id ≠ other := by
    rintro other listed rfl
    exact unlisted listed
  rcases file with rfl | rfl
  · exact ⟨nofun, fun other listed => by simp [apart other listed]⟩
  · exact ⟨nofun, fun other listed => by simp [apart other listed]⟩

/-- Removing the files of snapshots that are listed nowhere disturbs nothing. -/
theorem unlinkSnapshots_holding {doomed : List Snapshot}
    (kept : ∀ s ∈ doomed, ∃ k : Kept, k.Shaped a ∧ s.unpinned = k.snapshot)
    (gone : ∀ s ∈ doomed, ∀ t ∈ now, t.id ≠ s.id) (tidy : ∀ id ∈ m.ranksWritten, ∃ s ∈ m.snapshots, s.id = id)
    (unlisted : ∀ s ∈ doomed, ∀ t ∈ m.snapshots, t.id ≠ s.id) {fail : MoonclipError → World → Prop} :
    Triple (fun w => Holding buffers used a P now start w ∧ w.manifest = m) (unlinkSnapshots doomed)
      (fun _ w => Holding buffers used a P now start w ∧ w.manifest = m) fail := by
  refine Triple.get_bind fun w₀ => ?_
  refine Triple.weaken (fun w => Holding buffers used a P now start w ∧ w.manifest = m) ?_
    (fun w held => held.1 ▸ held.2) (fun _ _ held => held) fun _ _ held => held
  split
  · exact Triple.pure fun w held => held
  · refine Triple.forM fun p there => ?_
    obtain ⟨s, chosen, there⟩ := List.mem_flatMap.mp there
    obtain ⟨k, shaped, same⟩ := kept s chosen
    have file := mem_filesOf shaped same there
    refine Storage.delete_spec (fun w held => held) fun w held => ?_
    obtain ⟨held, rfl⟩ := held
    have fromNow := delete_unlisted {id | ∃ t ∈ now, t.id = id} file
      fun ⟨t, listed, same⟩ => gone s chosen t listed same
    have fromList := delete_unlisted {id | ∃ t ∈ w.manifest.snapshots, t.id = id} file
      fun ⟨t, listed, same⟩ => unlisted s chosen t listed same
    exact ⟨held.delete fromNow.1 (fun t listed => fromNow.2 _ ⟨t, listed, rfl⟩)
      (fun t listed => fromList.2 _ ⟨t, listed, rfl⟩) fun id there => fromList.2 _ (tidy id there), rfl⟩

end Coordinator

end
end Moonclip
