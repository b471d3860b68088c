import Moonclip.Persisting

/-! One save, whichever way it ends: the archive has gained at most the snapshot
that was saved, and the store holds what it held, or what retention left of it. -/
namespace Moonclip
open Library.Codec Library.Effect Library.Files Library.Outcome Library.Tables

section
variable [Zstd] [Xxh3] [SerdeJson] {buffers : Set Bytes} {used : Set Uuid} {a : Archive} {k b : Kept}
  {P : List Snapshot → Prop} {now snapshots : List Snapshot} {start files : Files} {w : World}
  {m : Manifest} {cfg : Config} {snapId : Uuid} {base : Option Snapshot} {tensors : List TensorData}
  {context : SnapshotContext}

/-- What a save may be given: tensors of different names, whose bytes no others
hash like. -/
structure Savable (buffers : Set Bytes) (cfg : Config) (tensors : List TensorData) : Prop where
  rank : cfg.rank = 0
  worldSize : cfg.worldSize = 1
  distinct : (tensors.map (·.name)).Nodup
  known : ∀ t ∈ tensors, ∀ w, Tensor.workingCopy t cfg.saveDtype = .ok w → w.data ∈ buffers

namespace Coordinator

omit [Zstd] [Xxh3] [SerdeJson] in
theorem chooseBase_eq_some {r : InFlight} {step : Nat} {s : Snapshot}
    (chosen : chooseBase m r step = some s) :
    s ∈ m.snapshots ∧ s.isFull = true ∧ r.isDoomed s.id = false := by
  unfold chooseBase at chosen
  split at chosen
  · contradiction
  · obtain ⟨last, free⟩ := Option.filter_eq_some_iff.mp chosen
    have present := List.mem_of_find?_eq_some last
    exact ⟨by simpa using present, List.find?_some last, by simpa using free⟩

/-- A listed full snapshot is a base the archive knows, and its pack is there. -/
theorem kept_of_base (sound : a.Sound buffers) (listed : Listed a files snapshots) {s : Snapshot}
    (present : s ∈ snapshots) (full : s.isFull = true) :
    ∃ b, a s.id = some b ∧ b.id = s.id ∧ s.unpinned = b.snapshot ∧ b.Base buffers a ∧
      files.find? b.path = some b.pack := by
  obtain ⟨b, kept, id, same, pack⟩ := listed.id_eq present
  have sound := (sound s.id b kept).2
  have alike := Snapshot.alike_of_unpinned (same.trans (Snapshot.unpinned_of sound.unpinned).symm)
  exact ⟨b, kept, id, same, ⟨sound, alike.base ▸ (s.isFull_iff.mp full).1⟩, by rwa [Kept.path, id]⟩

omit [SerdeJson] in
theorem buildBaseCache_cacheOf {r : Option RetainedBase} {s : Snapshot} {cache : BaseCache}
    (shaped : b.Shaped a) (same : s.unpinned = b.snapshot)
    (retained : ∀ held, r = some held → held.snapId = s.id → Retains b held.tensors)
    (built : buildBaseCache 0 r (some s) = some cache) : CacheOf b cache := by
  have alike := Snapshot.alike_of_unpinned (same.trans (Snapshot.unpinned_of shaped.unpinned).symm)
  have entry : s.ranks[0]? = some b.entry := alike.ranks ▸ shaped.rankEntry
  simp only [buildBaseCache, entry, bind, Option.bind, pure, Option.some.injEq] at built
  subst built
  refine ⟨shaped.packed, rfl, alike.compression, fun held kept => ?_⟩
  obtain ⟨full, there, rfl⟩ := Option.map_eq_some_iff.mp kept
  obtain ⟨there, same⟩ := Option.filter_eq_some_iff.mp there
  exact retained full there (by simpa using same)

/-- A save that has its entries and the parts of its pack has a snapshot to keep. -/
theorem savedPack_of {base' : Option Kept} {pts : List ProcessedTensor} {parts : List Bytes}
    {page : Nat} (savable : Savable buffers cfg tensors) (bases : base'.map Kept.id = base.map (·.id))
    (processed : Processed base' cfg tensors pts)
    (entry : k.entry = rankEntryOf cfg.rank (packPath snapId cfg.rank)
      ((assignOffsets Pack.headerLen pts).map (·.entry)))
    (snapshot : k.snapshot = snapshotOf cfg snapId base context k.entry)
    (made : packParts
      { snapshotId := snapId
        step := context.step
        createdAt := context.createdAt
        baseSnapshotId := base.map (·.id)
        metadata := context.metadata
        compression := cfg.compression
        worldSize := cfg.worldSize
        rank := k.entry } (blobsOf (assignOffsets Pack.headerLen pts)) = .ok parts)
    (pack : k.pack = pad page parts.flatten) (fits : k.pack.length < 2 ^ 64) :
    SavedPack base' cfg tensors pts k where
  rank := savable.rank
  worldSize := savable.worldSize
  compression := by rw [snapshot]; rfl
  baseId := by rw [snapshot, bases]; rfl
  ranks := by rw [snapshot, ← savable.rank]; rfl
  finalized := by rw [snapshot]; rfl
  unpinned := by rw [snapshot]; rfl
  processed := processed
  entry := by
    rw [entry, Kept.path, Kept.id, snapshot, savable.rank]
    rfl
  written := by
    refine ⟨parts, page, ?_, pack⟩
    rw [← blobsOf_assignOffsets, ← made, Kept.descriptor, Kept.id, snapshot, savable.worldSize]
    rfl
  fits := fits

/-- The base a save is given, as the archive has it. -/
def keptBase (a : Archive) (base : Option Snapshot) : Option Kept := base.bind fun s => a s.id

theorem keptBase_eq_some (sound : a.Sound buffers) (listed : Listed a files snapshots)
    (eligible : ∀ s, base = some s → s ∈ snapshots ∧ s.isFull = true)
    (kept : keptBase a base = some b) :
    ∃ s, base = some s ∧ a b.id = some b ∧ b.id = s.id ∧ s.unpinned = b.snapshot ∧ b.Base buffers a ∧
      files.find? b.path = some b.pack := by
  obtain ⟨s, given, there⟩ := Option.bind_eq_some_iff.mp kept
  obtain ⟨b', there', id, rest⟩ :=
    kept_of_base sound listed (eligible s given).1 (eligible s given).2
  obtain rfl : b = b' := by simpa [there] using there'
  exact ⟨s, given, id ▸ there, id, rest⟩

theorem keptBase_ids (sound : a.Sound buffers) (listed : Listed a files snapshots)
    (eligible : ∀ s, base = some s → s ∈ snapshots ∧ s.isFull = true) :
    (keptBase a base).map Kept.id = base.map (·.id) := by
  cases base with
  | none => rfl
  | some s =>
    obtain ⟨b, kept, id, _⟩ := kept_of_base sound listed (eligible s rfl).1 (eligible s rfl).2
    simp [keptBase, kept, id]

variable [LawfulZstd] [LawfulSerdeJson]

/-- The pack goes down, and the archive has one more snapshot. -/
theorem writePack_holding {pts : List ProcessedTensor} (savable : Savable buffers cfg tensors)
    (fresh : snapId ∉ used) (ids : ∀ id k, a id = some k → id ∈ used)
    (faithful : Set.InjOn hashHex buffers)
    (eligible : ∀ s, base = some s → s ∈ m.snapshots ∧ s.isFull = true)
    (processed : Processed (keptBase a base) cfg tensors pts) :
    Triple (fun w => (Holding buffers (insert snapId used) a P now start w ∧ w.manifest = m) ∧
        ∀ r, w.retainedBase = some r → r.snapId = snapId → base = none ∧
          r = retainBase snapId tensors pts)
      (do
        let placed := assignOffsets Pack.headerLen pts
        let rankEntry := rankEntryOf cfg.rank (packPath snapId cfg.rank) (placed.map (·.entry))
        let parts ← returning (packParts
          { snapshotId := snapId
            step := context.step
            createdAt := context.createdAt
            baseSnapshotId := base.map (·.id)
            metadata := context.metadata
            compression := cfg.compression
            worldSize := cfg.worldSize
            rank := rankEntry } (blobsOf placed))
        Storage.putParts (packPath snapId cfg.rank) parts
        return rankEntry)
      (fun entry w => ∃ k pts, SavedPack (keptBase a base) cfg tensors pts k ∧
        k.snapshot = snapshotOf cfg snapId base context entry ∧
        Holding buffers (insert snapId used) (a.add k) P now start w ∧
        w.disk.files.find? k.path = some k.pack ∧ w.manifest = m)
      fun _ w => Holding buffers (insert snapId used) a P now start w := by
  extract_lets placed rankEntry
  refine Triple.bind (fun parts w => ((Holding buffers (insert snapId used) a P now start w ∧
      w.manifest = m) ∧ ∀ r, w.retainedBase = some r → r.snapId = snapId → base = none ∧
        r = retainBase snapId tensors pts) ∧ packParts _ (blobsOf placed) = .ok parts)
    (Triple.returning (fun parts w made held => ⟨held, made⟩) fun e w _ held => held.1.1) fun parts => ?_
  refine Triple.bind (fun _ w => ∃ k pts, SavedPack (keptBase a base) cfg tensors pts k ∧
      k.snapshot = snapshotOf cfg snapId base context rankEntry ∧
      Holding buffers (insert snapId used) (a.add k) P now start w ∧
      w.disk.files.find? k.path = some k.pack ∧ w.manifest = m)
    (Storage.put_spec (fun w held taken => ?_) fun w e held => held.1.1.1)
    fun _ => Triple.pure fun w held => held
  obtain ⟨⟨⟨held, same⟩, kept⟩, made⟩ := held
  let k : Kept := ⟨snapshotOf cfg snapId base context rankEntry, rankEntry,
    pad w.disk.pageSize parts.flatten⟩
  have listed : Listed a w.disk.files m.snapshots := same ▸ held.listed
  have saved : SavedPack (keptBase a base) cfg tensors pts k :=
    savedPack_of savable (keptBase_ids held.sound listed eligible) processed rfl rfl made rfl
      (held.bounded _ _ taken)
  have bases : ∀ b, keptBase a base = some b → a b.id = some b ∧ b.Base buffers a := by
    intro b there
    obtain ⟨s, _, known, _, _, root, _⟩ := keptBase_eq_some held.sound listed eligible there
    exact ⟨known, root⟩
  have new : k.Sound buffers a :=
    saved.sound savable.distinct faithful savable.known bases
  have unknown : a k.id = none := by
    cases there : a k.id with
    | none => rfl
    | some other => exact absurd (ids k.id other there) fresh
  have grown := held.extend (Archive.extends_add unknown) (held.sound.add unknown new)
    (fun id other there => ?_) fun r there other of => ?_
  · have path : packPath snapId cfg.rank = k.path := by rw [savable.rank]; rfl
    rw [path]
    exact ⟨k, pts, saved, rfl, grown.put_pack Archive.add_self, FileStore.find?_put_self, same⟩
  · rcases Archive.add_eq_some there with ⟨rfl, _⟩ | before
    · exact Set.mem_insert _ _
    · exact held.ids id other before
  · rcases Archive.add_eq_some of with ⟨from_, rfl⟩ | before
    · obtain ⟨alone, rfl⟩ := kept r there from_
      have saved : SavedPack none cfg tensors pts k := by simpa [alone, keptBase] using saved
      exact saved.retains savable.distinct faithful savable.known
    · exact held.retained r there other before

theorem saveRankTensors_holding (savable : Savable buffers cfg tensors) (fresh : snapId ∉ used)
    (faithful : Set.InjOn hashHex buffers)
    (eligible : ∀ s, base = some s → s ∈ m.snapshots ∧ s.isFull = true) :
    Triple (fun w => Holding buffers used a P now start w ∧ w.manifest = m)
      (saveRankTensors cfg snapId base tensors context)
      (fun entry w => ∃ k pts, SavedPack (keptBase a base) cfg tensors pts k ∧
        k.snapshot = snapshotOf cfg snapId base context entry ∧
        Holding buffers (insert snapId used) (a.add k) P now start w ∧
        w.disk.files.find? k.path = some k.pack ∧ w.manifest = m)
      fun _ w => Holding buffers (insert snapId used) a P now start w := by
  refine Triple.get_bind fun w₀ => ?_
  refine Triple.learn (P := Holding buffers used a P now start w₀ ∧ w₀.manifest = m)
    (fun w held => held.2) fun ⟨held₀, same⟩ => ?_
  have listed : Listed a w₀.disk.files m.snapshots := same ▸ held₀.listed
  extract_lets cache
  have bases : ∀ b, keptBase a base = some b → _ := fun b => keptBase_eq_some held₀.sound listed eligible
  refine Triple.bind (fun pts w => w = w₀ ∧ Processed (keptBase a base) cfg tensors pts)
    (Triple.returning (fun pts w made held => ⟨held.1, ?_⟩) fun e w _ held => ?_) fun pts => ?_
  · refine processAll_processed savable.distinct (fun c built => ?_) made
    cases given : base with
    | none => simp [cache, buildBaseCache, given] at built
    | some s =>
      obtain ⟨b, kept, id, alike, root, pack⟩ := kept_of_base held₀.sound listed (eligible s given).1
        (eligible s given).2
      refine ⟨b, by simp [keptBase, kept], ?_, root.legible, pack⟩
      refine buildBaseCache_cacheOf root.toShaped alike (fun r there from_ => ?_)
        (by rw [← built, ← given, ← savable.rank])
      exact held₀.retained r there b (from_ ▸ kept)
  · exact held.1 ▸ held₀.take (Set.subset_insert _ _)
  · refine Triple.learn (fun w held => held.2) fun processed => ?_
    extract_lets placed rankEntry rest
    -- only a full snapshot is kept in memory, and it is this one's bytes that are kept
    have go : Triple (fun w => (Holding buffers (insert snapId used) a P now start w ∧ w.manifest = m) ∧
        ∀ r, w.retainedBase = some r → r.snapId = snapId → base = none ∧
          r = retainBase snapId tensors pts) (rest ()) _ _ :=
      writePack_holding savable fresh held₀.ids faithful eligible processed
    split
    · rename_i keeps
      have alone : base = none := by simpa using (Bool.and_eq_true_iff.mp keeps).1
      refine Triple.bind _ (Triple.modified fun w held => ?_) fun _ => go
      obtain ⟨rfl, _⟩ := held
      refine ⟨⟨(held₀.take (Set.subset_insert _ _)).retain (Set.mem_insert _ _) fun k kept => ?_, same⟩,
        fun r there _ => ⟨alone, by simpa using there.symm⟩⟩
      exact absurd (held₀.ids _ k kept) fresh
    · refine Triple.weaken _ go (fun w held => ?_) (fun _ _ held => held) fun _ _ held => held
      obtain ⟨rfl, _⟩ := held
      exact ⟨⟨held₀.take (Set.subset_insert _ _), same⟩, fun r there from_ =>
        absurd (from_ ▸ held₀.source r there) fresh⟩

end Coordinator

omit [Zstd] [Xxh3] [SerdeJson] in
theorem Listed.syncPins {steps : Option (List Nat)} (listed : Listed a files m.snapshots) :
    Listed a files (m.syncPins steps).snapshots where
  distinct := Manifest.syncPins_distinct listed.distinct
  closed := Manifest.syncPins_closed listed.closed
  kept s present := by
    obtain ⟨flag, flagged⟩ := Manifest.syncPins_eq_map m steps
    rw [flagged] at present
    obtain ⟨t, there, rfl⟩ := List.mem_map.mp present
    exact listed.kept t there

omit [Zstd] [Xxh3] [SerdeJson] in
theorem Listed.retain (listed : Listed a files m.snapshots) :
    Listed a files (Retention.retain m).1.snapshots where
  distinct := Retention.retain_distinct listed.distinct
  closed := Retention.retain_closed listed.distinct listed.closed
  kept s present := listed.kept s (Retention.retain_sublist.subset present)

namespace Coordinator

/-- What retention leaves is on record, and what it evicts is listed no more. -/
theorem applyRetention_holding :
    Triple (fun w => Holding buffers used a P now start w ∧ w.manifest = m) applyRetention
      (fun evicted w => Holding buffers used a (fun l => P l ∨ l = w.manifest.snapshots)
          w.manifest.snapshots start w ∧
        (∀ id ∈ w.manifest.ranksWritten, ∃ s ∈ w.manifest.snapshots, s.id = id) ∧
        ∀ s ∈ evicted, (∃ k : Kept, k.Shaped a ∧ s.unpinned = k.snapshot) ∧
          ∀ t ∈ w.manifest.snapshots, t.id ≠ s.id)
      fun _ w => Holding buffers used a P now start w := by
  refine Triple.get_bind fun w₀ => ?_
  refine Triple.bind (fun _ w => Holding buffers used a P now start w ∧ w.manifest = m)
    (Triple.returning (fun _ w _ held => held.1 ▸ held.2) fun _ w _ held => held.1 ▸ held.2.1)
    fun steps => ?_
  refine Triple.get_bind fun w₁ => ?_
  refine Triple.learn (fun w held => held.2) fun ⟨held₁, same⟩ => ?_
  have synced : Listed a w₁.disk.files (w₁.manifest.syncPins steps).snapshots := held₁.listed.syncPins
  refine Triple.bind (fun _ w => Holding buffers used a P now start w ∧
    w.manifest = (Retention.retain (w₁.manifest.syncPins steps)).1)
    (Triple.modified fun w held => ?_) fun _ => ?_
  · obtain ⟨rfl, _⟩ := held
    refine ⟨held₁.relist synced.retain ?_, rfl⟩
    exact (Manifest.syncPins_ranksWritten (m := w.manifest)).symm ▸ held₁.written
  · refine Triple.bind _ (ManifestIo.persist_holding.weaken _ (fun _ held => held) (fun _ _ held => held)
      fun _ _ held => held.1) fun _ => ?_
    refine Triple.pure fun w held => ?_
    obtain ⟨held, ready⟩ := held
    rw [← ready.same] at held
    refine ⟨held, ready.tidy, fun s gone => ⟨?_, fun t listed => ?_⟩⟩
    · obtain ⟨k, kept, alike, _⟩ := synced.kept s (Retention.evicted_mem gone)
      exact ⟨k, (held₁.sound s.id k kept).2.toShaped, alike⟩
    · rw [ready.same] at listed
      exact Retention.evicted_gone synced.distinct gone listed

variable [LawfulZstd] [LawfulSerdeJson]

/-- A save that got as far as its pack has added to the archive, whatever became
of the list. -/
theorem recordSave_holding (savable : Savable buffers cfg tensors) (fresh : snapId ∉ used)
    (faithful : Set.InjOn hashHex buffers)
    (eligible : ∀ s, base = some s → s ∈ m.snapshots ∧ s.isFull = true) :
    Triple (fun w => Holding buffers used a P now start w ∧ w.manifest = m)
      (recordSave cfg snapId base tensors context)
      (fun evicted w => ∃ k pts, SavedPack (keptBase a base) cfg tensors pts k ∧ k.id = snapId ∧
        Holding buffers (insert snapId used) (a.add k) (fun l => P l ∨ l = w.manifest.snapshots)
          w.manifest.snapshots start w ∧
        (∀ id ∈ w.manifest.ranksWritten, ∃ s ∈ w.manifest.snapshots, s.id = id) ∧
        ∀ s ∈ evicted, (∃ k' : Kept, k'.Shaped (a.add k) ∧ s.unpinned = k'.snapshot) ∧
          ∀ t ∈ w.manifest.snapshots, t.id ≠ s.id)
      fun _ w => ∃ a', a.Extends a' ∧ Holding buffers (insert snapId used) a' P now start w := by
  refine Triple.learn (P := (∀ id k, a id = some k → id ∈ used) ∧ ∀ s ∈ m.snapshots, s.id ∈ used)
    (fun w held => ⟨held.1.ids, fun s present => ?_⟩) fun ⟨ids, known⟩ => ?_
  · obtain ⟨held, rfl⟩ := held
    obtain ⟨k, kept, _⟩ := held.listed.kept s present
    exact held.ids s.id k kept
  refine Triple.bind _ ((saveRankTensors_holding savable fresh faithful eligible).weaken _
    (fun _ held => held) (fun _ _ held => held)
    fun _ w held => ⟨a, Archive.Extends.refl a, held⟩) fun entry => ?_
  extract_lets snapshot
  intro w held
  obtain ⟨k, pts, saved, made, held, pack, rfl⟩ := held
  have listed : Listed (a.add k) w.disk.files (w.manifest.snapshots ++ [snapshot]) := by
    simp only [snapshot, ← made]
    refine held.listed.push Archive.add_self pack saved.unpinned (fun s present same => ?_)
      fun id delta => ?_
    · rw [Kept.id, made] at same
      have taken := known s present
      rw [same] at taken
      exact fresh taken
    · rw [made] at delta
      obtain ⟨s, given, rfl⟩ := Option.map_eq_some_iff.mp delta
      exact ⟨s, (eligible s given).1, rfl, (s.isFull_iff.mp (eligible s given).2).1⟩
  have unknown : a k.id = none := by
    cases there : a k.id with
    | none => rfl
    | some other =>
      rw [Kept.id, made] at there
      exact absurd (ids _ other there) fresh
  refine Triple.bind (fun _ w' => Holding buffers (insert snapId used) (a.add k) P now start w' ∧
      w'.manifest = { w.manifest with snapshots := w.manifest.snapshots ++ [snapshot] })
    (Triple.modified fun w' same => ?_) (fun _ => applyRetention_holding.weaken _ (fun _ held => held)
      (fun evicted w' left => ?_) fun _ w' held => ?_) w rfl
  · obtain rfl : w = w' := same
    exact ⟨held.relist listed held.written, rfl⟩
  · exact ⟨k, pts, saved, by rw [Kept.id, made]; rfl, left⟩
  · exact ⟨a.add k, Archive.extends_add unknown, held⟩

/-- A save that succeeds has put on record what retention left, and one that fails
has left the record as it was. -/
theorem saveSync_holding (savable : Savable buffers cfg tensors) (fresh : snapId ∉ used)
    (faithful : Set.InjOn hashHex buffers) :
    Triple (Holding buffers used a P now start) (saveSync cfg snapId tensors context)
      (fun _ w => ∃ base k pts, SavedPack (keptBase a base) cfg tensors pts k ∧ k.id = snapId ∧
        (∀ b, keptBase a base = some b → a b.id = some b ∧ b.Base buffers a) ∧
        Holding buffers (insert snapId used) (a.add k) (fun l => P l ∨ l = w.manifest.snapshots)
          w.manifest.snapshots start w)
      fun _ w => ∃ a', a.Extends a' ∧ Holding buffers (insert snapId used) a' P now start w := by
  refine Triple.get_bind fun w₀ => ?_
  refine Triple.learn (fun w held => held.2) fun held₀ => ?_
  extract_lets base pins
  have eligible : ∀ s, base = some s → s ∈ w₀.manifest.snapshots ∧ s.isFull = true := by
    intro s chosen
    exact ⟨(chooseBase_eq_some chosen).1, (chooseBase_eq_some chosen).2.1⟩
  have bases : ∀ b, keptBase a base = some b → a b.id = some b ∧ b.Base buffers a := by
    intro b there
    obtain ⟨s, _, known, _, _, root, _⟩ := keptBase_eq_some held₀.sound held₀.listed eligible there
    exact ⟨known, root⟩
  refine Triple.bind _ (Triple.weaken _ (Triple.bracket (recordSave_holding savable fresh faithful eligible)
    (fun w held => ⟨held.1.inFlight _, held.2⟩) (fun evicted w left => ?_) fun e w left => ?_)
    (fun w held => ⟨held.1 ▸ held.2, by rw [held.1]⟩) (fun _ _ left => left) fun _ _ left => left)
      fun evicted => ?_
  · obtain ⟨k, pts, saved, named, held, rest⟩ := left
    exact ⟨k, pts, saved, named, held.inFlight _, rest⟩
  · obtain ⟨a', grown, held⟩ := left
    exact ⟨a', grown, held.inFlight _⟩
  · intro w left
    obtain ⟨k, pts, saved, named, held, tidy, gone⟩ := left
    suffices removed : Triple (fun w' => w' = w) (unlinkSnapshots evicted) _ _ from removed w rfl
    refine Triple.weaken (fun w' => Holding buffers (insert snapId used) (a.add k)
        (fun l => P l ∨ l = w.manifest.snapshots) w.manifest.snapshots start w' ∧
          w'.manifest = w.manifest)
      (unlinkSnapshots_holding (fun s there => (gone s there).1) (fun s there => (gone s there).2) tidy
        fun s there => (gone s there).2) (fun w' same => ?_) (fun _ w' held' => ?_) fun _ _ left => left
    · subst same
      exact ⟨held, rfl⟩
    · obtain ⟨held', same⟩ := held'
      exact ⟨base, k, pts, saved, named, bases, same ▸ held'⟩

end Coordinator
end
end Moonclip
