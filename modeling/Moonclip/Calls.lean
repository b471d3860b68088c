import Moonclip.PackWriters
import Moonclip.Publishing
import Moonclip.NewestKept
import Moonclip.Sheets

/-! The calls a thread makes between two events: a pack put down outside the lock, a
snapshot listed under it, the list read again, a group folded. Each leaves the store
intact. -/
namespace Moonclip
open Library.Codec Library.Effect Library.Files

namespace Intact
variable [SerdeJson] {drawn drawn' : Drawn} {dead dead' coming coming' : Uuid → Prop}
  {first : Nat} {w w' : World}

theorem congr (held : Intact drawn dead coming first w) (disk : w'.disk = w.disk)
    (manifest : w'.manifest = w.manifest) : Intact drawn dead coming first w' := by
  obtain ⟨disk', manifest', _, _⟩ := w'
  obtain rfl : disk' = w.disk := disk
  obtain rfl : manifest' = w.manifest := manifest
  exact { held with }

/-- Fewer may be coming than were. -/
theorem fewer (held : Intact drawn dead coming first w) (less : ∀ id, coming' id → coming id) :
    Intact drawn dead coming' first w :=
  { held with unlisted := fun id near => held.unlisted id (less id near) }

/-- What is neither listed nor on record may go. -/
theorem bury (held : Intact drawn dead coming first w) (more : ∀ id, dead id → dead' id)
    (gone : ∀ s ∈ w.manifest.snapshots, ¬ dead' s.id)
      (off : ∀ h ∈ ManifestIo.heads w.disk.files, ¬ dead' h.id) :
    Intact drawn dead' coming first w :=
  { held with alive := gone, spared := off, written := fun id out alive =>
    held.written id out fun old => alive (more id old) }

/-- One more identifier is drawn, and may be coming. -/
theorem draw {id : Uuid} {base : Option Uuid} (held : Intact drawn dead coming first w)
    (new : id ∉ drawn.map (·.1)) :
      Intact ((id, base) :: drawn) dead (fun i => coming i ∨ i = id) first w := by
  have more : ∀ d ∈ drawn, d ∈ (id, base) :: drawn := fun d there => List.mem_cons_of_mem _ there
  have index := held.sane.lists
  rw [← held.replayed] at index
  refine { held with
    always := fun n later => (held.always n later).mono more
    lists := held.lists.mono more, unlisted := ?_, named := ?_, keyed := ?_ }
  · rintro i (near | rfl)
    · exact held.unlisted i near
    · refine ⟨fun s listed same => new (same ▸ held.lists.mem_drawn listed), fun h listed same => new ?_,
        fun text put => new (held.named _ text put)⟩
      rw [← same]
      exact index.mem_drawn (List.mem_map_of_mem (f := fun h => ManifestIo.snapshotOf h ∅) listed)
  · intro i text put
    exact List.mem_map.mpr ((List.mem_map.mp (held.named i text put)).imp fun d there =>
      ⟨more d there.1, there.2⟩)
  · simpa using ⟨by simpa using new, held.keyed⟩

/-- A pack goes down that says whose it is. -/
theorem putPack [LawfulSerdeJson] {id : Uuid} {rank : Nat} {descriptor : PackDescriptor}
    {blobs parts : List Bytes}
    (held : Intact drawn dead coming first w) (made : Coordinator.packParts descriptor blobs = .ok parts)
    (own : descriptor.snapshotId = id) (packed : descriptor.rank.Packed id rank)
    (taken : w.disk.accepts (packPath id rank) (pad w.disk.pageSize parts.flatten) = true) :
    Intact drawn dead coming first
      { w with disk := w.disk.change (.put (packPath id rank) (pad w.disk.pageSize parts.flatten)) } := by
  refine held.put Path.noConfusion (fun id' same => ?_) fun id' entry _ mine read => ?_
  · simp [packPath, ranksPath] at same
  · obtain rfl : id = id' := Path.belongsTo_unique (by simp) mine
    have fits := held.bounded _ _ taken
    have stored : (w.disk.files.put (packPath id rank) (pad w.disk.pageSize parts.flatten)).find?
      (packPath id rank) =
        some (pad w.disk.pageSize parts.flatten) := FileStore.find?_put_self
    have again := Coordinator.shardOf_pack made fits stored own
    obtain rfl : descriptor.rank = entry := Except.ok.inj (again.symm.trans read)
    exact ⟨rank, rfl, packed⟩

end Intact

section
variable [SerdeJson] {drawn : Drawn} {dead coming : Uuid → Prop} {first : Nat} {l r : List Snapshot}
  {f : InFlight} {before : Files} {w w' : World}

theorem At.congr (at_ : At l r f before w) (disk : w'.disk = w.disk) (manifest : w'.manifest = w.manifest)
    (flight : w'.inFlight = w.inFlight) : At l r f before w' where
  list := manifest ▸ at_.list
  record := disk ▸ at_.record
  flight := flight ▸ at_.flight
  grown := disk ▸ at_.grown

/-- Where the record is of the list, whatever it names is listed. -/
theorem At.heads (at_ : At l (l.map Snapshot.bare) f before w) :
    ∀ h ∈ ManifestIo.heads w.disk.files, ∃ t ∈ l, t.id = h.id := by
  intro h listed
  have recorded : ManifestIo.snapshotOf h ∅ ∈ l.map Snapshot.bare := at_.record ▸ List.mem_map_of_mem listed
  obtain ⟨t, there, same⟩ := List.mem_map.mp recorded
  exact ⟨t, there, congrArg Snapshot.id same⟩

namespace Coordinator
variable [Zstd] [Xxh3] {cfg : Config} {snapId : Uuid} {base : Option Snapshot} {tensors : List TensorData}
  {context : SnapshotContext}

omit [SerdeJson] in
/-- No entry a save makes has a file of its own, and full ones tell what is stored. -/
theorem sealed_processAll {files : Files} {cache : Option BaseCache} {pts : List ProcessedTensor}
    (made : processAll cfg files cache tensors = .ok pts) : ∀ pt ∈ pts, pt.entry.filename = none ∧
      pt.entry.Sealed := by
  simp only [processAll, Library.Outcome.bind_eq_ok, Library.Outcome.pure_eq_ok,
    Library.Outcome.mapM_eq_ok] at made
  obtain ⟨processed, done, rfl⟩ := made
  intro pt there
  rcases List.mem_append.mp there with own | shared
  · obtain ⟨t, _, ran⟩ := Library.Outcome.exists_item done own
    obtain ⟨w, _, stores⟩ := Tensor.processTensor_stores ran
    refine ⟨stores.describes.filename, ?_⟩
    cases stores with
    | bytes storage shuffled blob _ => exact fun _ => rfl
    | skipped =>
      intro stored
      contradiction
  · obtain ⟨e, listed, rfl⟩ := List.mem_map.mp shared
    obtain ⟨⟨t, owner⟩, _, aliased⟩ := List.mem_filterMap.mp listed
    simp only [Option.bind_eq_bind, Option.bind_eq_some_iff, Option.pure_def, Option.some.injEq] at aliased
    obtain ⟨_, _, target, _, rfl⟩ := aliased
    refine ⟨rfl, fun stored => ?_⟩
    contradiction

omit [SerdeJson] [Zstd] [Xxh3] in
/-- A place in the pack is all a tensor gets. -/
theorem assignOffsets_moves {offset : Nat} {pts : List ProcessedTensor} :
    ∀ e ∈ (assignOffsets offset pts).map (·.entry), ∃ pt ∈ pts, ∃ place,
      e = { pt.entry with offset := place } := by
  have placed := @assignOffsets_placed _ (List.replicate offset 0) [] pts rfl
  rw [List.length_replicate] at placed
  intro e listed
  obtain ⟨pt', there, rfl⟩ := List.mem_map.mp listed
  obtain ⟨pt, present, placing⟩ := Library.Outcome.exists_item placed there
  obtain ⟨place, same⟩ := placing.entry
  exact ⟨pt, present, place, same⟩

theorem packed_packOfSave {entry : RankEntry} {parts : List Bytes}
    (made : packOfSave cfg snapId base tensors context w = .ok (entry, parts)) :
      entry.Packed snapId cfg.rank := by
  simp only [packOfSave, Library.Outcome.bind_eq_ok, Library.Outcome.pure_eq_ok, Prod.mk.injEq] at made
  obtain ⟨pts, processed, _, _, rfl, rfl⟩ := made
  have each := sealed_processAll processed
  constructor
  · rfl
  · intro e listed
    obtain ⟨pt, present, _, rfl⟩ := assignOffsets_moves e listed
    exact (each pt present).1
  · intro e listed
    obtain ⟨pt, present, _, rfl⟩ := assignOffsets_moves e listed
    exact (each pt present).2

/-- A save's pack goes down, or nothing does. -/
theorem saveRankTensors_intact [LawfulSerdeJson] :
    Triple (fun w => Intact drawn dead coming first w ∧ At l r f before w)
      (saveRankTensors cfg snapId base tensors context)
      (fun entry w => Intact drawn dead coming first w ∧ At l r f before w ∧ entry.Packed snapId cfg.rank ∧
        (w.disk.files.find? (packPath snapId cfg.rank)).isSome = true)
      fun _ w => Intact drawn dead coming first w ∧ At l r f before w := by
  rintro w ⟨held, at_⟩
  have outcome := @saveRankTensors_spec _ _ _ cfg snapId base tensors context w w rfl
  cases ran : saveRankTensors cfg snapId base tensors context w with
  | ok entry w' =>
    rw [ran] at outcome
    obtain ⟨taken, parts, made, disk, manifest, flight⟩ := outcome
    simp only [packWritten, made] at taken
    obtain ⟨_, descriptor, blobs, packs, own, rfl⟩ := Assembling.packOfSave_eq_ok made
    have packed := packed_packOfSave made
    have put := held.putPack packs own packed taken
    have other : packPath snapId cfg.rank ≠ .manifestJson := Path.noConfusion
    refine ⟨put.congr disk manifest, (at_.put other).congr disk manifest flight, packed, ?_⟩
    rw [disk]
    simp [Change.apply]
  | error e w' =>
    rw [ran] at outcome
    obtain ⟨_, disk, manifest, flight⟩ := outcome
    exact ⟨held.congr disk manifest, at_.congr disk manifest flight⟩

/-- The same disk with the pack of a rank on it, whatever it was computed against. -/
def PackPut (cfg : Config) (snapId : Uuid) (tensors : List TensorData) (before after : Disk) : Prop :=
  ∃ own base context entry parts, packOfSave cfg snapId base tensors context own = .ok (entry, parts) ∧
    before.accepts (packPath snapId cfg.rank) (pad before.pageSize parts.flatten) = true ∧
    after = before.change (.put (packPath snapId cfg.rank) (pad before.pageSize parts.flatten))

/-- A rank reads what it likes, and then puts its pack down or changes nothing. -/
theorem saveRank_spec : Triple (fun s => s.disk = w.disk) (saveRank cfg snapId tensors)
    (fun _ s => PackPut cfg snapId tensors w.disk s.disk) fun _ s => s.disk = w.disk := by
  apply Triple.bind fun _ s => s.disk = w.disk
  · refine Triple.get_keep fun s => Triple.returning_keep (fun m => ?_) fun _ _ same => same
    exact Triple.modified fun _ same => same
  · intro _
    apply Triple.get_keep
    intro s
    extract_lets m
    split
    · exact Triple.throw fun _ same => same
    · extract_lets base pins
      apply Triple.bind fun _ s => PackPut cfg snapId tensors w.disk s.disk
      · apply Triple.bracket
        · intro own same
          refine Triple.weaken (fun s => s = own) saveRankTensors_spec (fun _ start => start)
            (fun entry s wrote => ?_)
            (fun _ _ left => left.2.1.trans same) own rfl
          obtain ⟨taken, parts, made, disk, _⟩ := wrote
          simp only [packWritten, made, same] at taken
          rw [same] at disk
          exact ⟨own, _, _, entry, parts, made, taken, disk⟩
        · exact fun _ same => same
        · exact fun _ _ left => left
        · exact fun _ _ same => same
      · exact fun _ => Triple.pure fun _ left => left

/-- A rank in a process of its own puts its pack down, whatever it read. -/
theorem saveRank_intact [LawfulSerdeJson] {own : World} (held : Intact drawn dead coming first w)
    (at_ : At l r f before w) (same : own.disk = w.disk) :
    Intact drawn dead coming first { w with disk := (finalState (saveRank cfg snapId tensors) own).disk } ∧
      At l r f before { w with disk := (finalState (saveRank cfg snapId tensors) own).disk } := by
  unfold finalState
  have outcome := @saveRank_spec _ w _ _ cfg snapId tensors own same
  cases ran : saveRank cfg snapId tensors own with
  | error e after =>
    rw [ran] at outcome
    dsimp only
    rw [show after.disk = w.disk from outcome]
    exact ⟨held, at_⟩
  | ok u after =>
    rw [ran] at outcome
    obtain ⟨_, _, _, entry, parts, made, taken, disk⟩ := outcome
    obtain ⟨_, descriptor, blobs, packs, named, rfl⟩ := Assembling.packOfSave_eq_ok made
    have other : packPath snapId cfg.rank ≠ .manifestJson := Path.noConfusion
    dsimp only
    rw [disk]
    exact ⟨held.putPack packs named (packed_packOfSave made) taken, at_.put other⟩

end Coordinator

namespace Merger
variable [Zstd] [Xxh3] {base last : Snapshot} {context : MergedContext} {worldSize rank : Nat}

omit [SerdeJson] in
/-- A rewritten tensor tells what is stored for it; an alias stores nothing. -/
theorem sealed_mergeTensor {files : Files} {source : Snapshot} {algo : CompressionAlgo} {e : TensorEntry}
    {pt : ProcessedTensor} (made : mergeTensor files base source rank algo e = .ok pt) : pt.entry.Sealed := by
  unfold mergeTensor at made
  split at made
  · rename_i aliased
    obtain rfl := Except.ok.inj made
    intro full
    rw [aliased] at full
    contradiction
  · simp only [Library.Outcome.bind_eq_ok, Library.Outcome.pure_eq_ok] at made
    obtain ⟨data, _, compressed, _, rfl⟩ := made
    exact fun _ => rfl

/-- What a merge writes for a rank is one pack, if what it folds is in packs. -/
theorem packed_mergedPack {files : Files} {entry : RankEntry} {parts : List Bytes}
    (inPack : ∀ source sourceRank, sourceOf base last rank = some (source, sourceRank) →
      ∀ e ∈ sourceRank.tensors, e.filename = none)
    (made : mergedPack files base last context worldSize rank = .ok (some (entry, parts))) :
    entry.Packed context.id rank ∧ ∃ descriptor blobs, Coordinator.packParts descriptor blobs = .ok parts ∧
      descriptor.snapshotId = context.id ∧ descriptor.rank = entry := by
  unfold mergedPack at made
  cases source : sourceOf base last rank with
  | none => simp [source] at made
  | some found =>
    obtain ⟨source', sourceRank⟩ := found
    simp only [source, Library.Outcome.bind_eq_ok, Library.Outcome.pure_eq_ok, Library.Outcome.mapM_eq_ok,
      Option.some.injEq, Prod.mk.injEq] at made
    obtain ⟨merged, rewritten, parts', packs, rfl, rfl⟩ := made
    refine ⟨⟨rfl, fun e listed => ?_, fun e listed => ?_⟩, _, _, packs, rfl, rfl⟩
    · obtain ⟨pt, present, _, rfl⟩ := Coordinator.assignOffsets_moves e listed
      obtain ⟨t, mine, ran⟩ := Library.Outcome.exists_item rewritten present
      exact (carried_mergeTensor ran).inPack (inPack source' sourceRank source t mine)
    · obtain ⟨pt, present, _, rfl⟩ := Coordinator.assignOffsets_moves e listed
      obtain ⟨t, mine, ran⟩ := Library.Outcome.exists_item rewritten present
      exact sealed_mergeTensor ran

theorem mergeRank_intact [LawfulSerdeJson] (inPack : ∀ source sourceRank,
      sourceOf base last rank = some (source, sourceRank) → ∀ e ∈ sourceRank.tensors, e.filename = none) :
    Triple (fun w => Intact drawn dead coming first w ∧ At l r f before w)
      (mergeRank base last context worldSize rank)
      (fun out w => Intact drawn dead coming first w ∧ At l r f before w ∧ ∀ e ∈ out.toList,
        e.2.Packed context.id rank ∧ (w.disk.files.find? (packPath context.id rank)).isSome = true)
      fun _ w => Intact drawn dead coming first w ∧ At l r f before w := by
  apply Triple.get_bind
  intro s
  cases made : mergedPack s.disk.files base last context worldSize rank with
  | error e => exact Triple.returning_error rfl fun _ start => start.1 ▸ start.2
  | ok merged =>
    apply Triple.returning_ok rfl
    cases merged with
    | none =>
      apply Triple.pure
      rintro w ⟨rfl, held, at_⟩
      exact ⟨held, at_, by simp⟩
    | some found =>
      obtain ⟨entry, parts⟩ := found
      obtain ⟨packed, descriptor, blobs, packs, own, same⟩ := packed_mergedPack inPack made
      have other : packPath context.id rank ≠ .manifestJson := Path.noConfusion
      apply Triple.bind fun _ w => Intact drawn dead coming first w ∧ At l r f before w ∧
        (w.disk.files.find? (packPath context.id rank)).isSome = true
      · apply Storage.put_spec
        · rintro w ⟨rfl, held, at_⟩ taken
          exact ⟨held.putPack packs own (same ▸ packed) taken, at_.put other, by simp [Change.apply]⟩
        · exact fun _ _ start => start.1 ▸ start.2
      · intro _
        apply Triple.pure
        rintro w ⟨held, at_, there⟩
        exact ⟨held, at_, by simpa using ⟨packed, there⟩⟩

end Merger

/-- What a persist adds: ranks files of listed snapshots, and their names to the list of
those written. -/
structure Adds (w₀ w : World) : Prop where
  list : w.manifest.snapshots = w₀.manifest.snapshots
  ranks : ∀ id ∈ w.manifest.ranksWritten, id ∈ w₀.manifest.ranksWritten ∨
    ∃ s ∈ w₀.manifest.snapshots, s.id = id
  texts : ∀ id text, .put (ranksPath id) text ∈ w.disk.journal →
    .put (ranksPath id) text ∈ w₀.disk.journal ∨ ∃ s ∈ w₀.manifest.snapshots, s.id = id

namespace ManifestIo
variable {w₀ : World}

theorem writeRanks_adds {s : Snapshot} (listed : s ∈ w₀.manifest.snapshots) :
    Triple (Adds w₀) (writeRanks s) (fun _ => Adds w₀) fun _ => Adds w₀ := by
  refine Triple.returning_keep (fun body => ?_) fun _ _ adds => adds
  refine Storage.put_spec (fun w adds _ => ?_) fun _ _ adds => adds
  refine ⟨adds.list, adds.ranks, fun id text put => ?_⟩
  rcases List.mem_append.mp put with earlier | new
  · exact adds.texts id text earlier
  · simp only [List.mem_singleton, Change.put.injEq, ranksPath_inj] at new
    exact .inr ⟨s, listed, new.1.symm⟩

theorem persist_adds : Triple (fun w => w = w₀) persist (fun _ => Adds w₀) fun _ => Adds w₀ := by
  apply Triple.get_bind_of
  extract_lets m ids
  apply Triple.weaken (Adds w₀) _ _ (fun _ _ left => left) fun _ _ left => left
  · apply Triple.bind
    · apply Triple.forM
      intro s chosen
      exact writeRanks_adds (List.mem_of_mem_filter chosen)
    · intro _
      apply Triple.modify_bind (Adds w₀)
      · intro w adds
        refine ⟨adds.list, fun id there => ?_, adds.texts⟩
        obtain ⟨_, listed⟩ := Finset.mem_filter.mp there
        obtain ⟨s, present, rfl⟩ := List.mem_map.mp listed
        exact .inr ⟨s, adds.list ▸ present, rfl⟩
      · refine fun _ => Triple.get_keep fun w => Triple.returning_keep (fun json => ?_) fun _ _ adds => adds
        refine Storage.put_spec (fun w adds _ => ⟨adds.list, adds.ranks, fun id text put => ?_⟩)
          fun _ _ adds => adds
        exact adds.texts id text (by simpa [ranksPath] using put)
  · rintro w rfl
    exact ⟨rfl, fun id there => .inl there, fun id text put => .inl put⟩

end ManifestIo

variable {coming' : Uuid → Prop}

/-- The list as it was, over what a persist of another left behind. -/
theorem Intact.relisted {l : List Snapshot} {w₁ : World} (held : Intact drawn dead coming first w)
    (left : Intact drawn dead coming' first w') (less : ∀ id, coming' id → coming id)
    (adds : Adds w₁ w') (disk : w₁.disk = w.disk)
    (grown : ∀ p, (w.disk.files.find? p).isSome = true → (w'.disk.files.find? p).isSome = true)
    (same : w.manifest.snapshots = l) :
    Intact drawn dead coming' first { w' with manifest := { w'.manifest with snapshots := l } } := by
  subst same
  refine { left with
    lists := held.lists, alive := held.alive
    stands := fun s listed => (held.stands s listed).mono grown
    texts := fun s listed text put => ?_, unlisted := fun id near => ?_ }
  · rcases adds.texts s.id text put with before | ⟨t, there, id⟩
    · rw [disk] at before
      exact (held.texts s listed text before).mono grown
    · rw [← adds.list] at there
      exact id ▸ left.texts t there text (id.symm ▸ put)
  · exact ⟨(held.unlisted id (less id near)).1, (left.unlisted id near).2⟩

namespace Merger

/-- An edited list is on record, or the list is what it was. -/
theorem publish_intact [LawfulSerdeJson] {edit : List Snapshot → List Snapshot}
    (held : Intact drawn dead coming first w) (lists : Lists drawn (edit w.manifest.snapshots))
    (stands : ∀ t ∈ edit w.manifest.snapshots, Standing w.disk.files t.id t.ranks)
    (within : ∀ t ∈ edit w.manifest.snapshots,
      (∃ s ∈ w.manifest.snapshots, s.id = t.id) ∨ coming t.id ∧ ¬ dead t.id)
    (fewer : ∀ id, coming' id → coming id ∧ ∀ t ∈ edit w.manifest.snapshots, t.id ≠ id) :
    Triple (fun s => s = w) (publish edit)
      (fun _ w' => Intact drawn dead coming' first w' ∧
        At (edit w.manifest.snapshots) ((edit w.manifest.snapshots).map Snapshot.bare) w.inFlight
          w.disk.files w')
      (fun _ w' => Intact drawn dead coming' first w' ∧
        At w.manifest.snapshots (ManifestIo.recorded w.disk.files) w.inFlight w.disk.files w') := by
  rintro w rfl
  let m : Manifest := { w.manifest with snapshots := edit w.manifest.snapshots }
  have start : Intact drawn dead coming' first { w with manifest := m } := by
    apply held.relist (m := m) lists stands _ fewer held.written
    intro t there
    exact (within t there).imp_right .inr
  have at_ : At m.snapshots (ManifestIo.recorded w.disk.files) w.inFlight w.disk.files
    { w with manifest := m } :=
    At.refl.relist
  have outcome := ManifestIo.persist_intact.both ManifestIo.persist_adds { w with manifest := m }
    ⟨⟨start, at_⟩, rfl⟩
  unfold publish
  dsimp only
  cases ran : ManifestIo.persist { w with manifest := m } with
  | ok _ w' =>
    rw [ran] at outcome
    exact outcome.1
  | error e w' =>
    rw [ran] at outcome
    obtain ⟨⟨left, at'⟩, adds⟩ := outcome
    refine ⟨held.relisted left (fun id near => (fewer id near).1) adds rfl at'.grown rfl, ?_⟩
    exact ⟨rfl, at'.record, at'.flight, at'.grown⟩

end Merger

namespace ManifestIo

/-- Heads whose files can be read come back in order, each with ranks that stand. -/
theorem readHeads_standing {files : Files} {held : Uuid → Option RankMap} {heads : List Head}
    (inline : ∀ h ∈ heads, ∀ ranks, h.ranks = some ranks → Standing files h.id ranks)
    (out : ∀ h ∈ heads, ∀ p, h.ranksFile = some p → (files.find? (ranksPath h.id)).isSome = true ∧
      ∃ ranks, readRanks files p h.id = some ranks ∧ Standing files h.id ranks)
    (lent : ∀ h ∈ heads, ∀ ranks, held h.id = some ranks → Standing files h.id ranks) :
    (readHeads files held heads).unreadable = [] ∧
      (readHeads files held heads).snapshots.map Snapshot.bare = heads.map (snapshotOf · ∅) ∧
      (∀ s ∈ (readHeads files held heads).snapshots, Standing files s.id s.ranks) ∧
      ∀ id ∈ (readHeads files held heads).ranksWritten, (files.find? (ranksPath id)).isSome = true := by
  induction heads generalizing held with
  | nil => simp [readHeads]
  | cons h rest ih =>
    have inline' := fun g there => inline g (List.mem_cons_of_mem h there)
    have out' := fun g there => out g (List.mem_cons_of_mem h there)
    have lent' : ∀ g ∈ rest, ∀ ranks, held g.id = some ranks → Standing files g.id ranks :=
      fun g there => lent g (List.mem_cons_of_mem h there)
    unfold readHeads
    split
    · rename_i ranks own
      obtain ⟨readable, bare, stands, written⟩ := ih inline' out' lent'
      refine ⟨readable, by simp [bare, Snapshot.bare, snapshotOf], ?_, written⟩
      intro s listed
      rcases List.mem_cons.mp listed with rfl | later
      · exact inline h (by simp) ranks own
      · exact stands s later
    · rename_i p none' own
      extract_lets others
      have spent : ∀ g ∈ rest, ∀ ranks, Function.update held h.id none g.id = some ranks →
        Standing files g.id ranks := by
        intro g there ranks given
        by_cases same : g.id = h.id
        · simp [same] at given
        · exact lent' g there ranks (by simpa [same] using given)
      obtain ⟨readable, bare, stands, written⟩ := ih inline' out' spent
      obtain ⟨present, ranks, read, stood⟩ := out h (by simp) p (by simp [Head.ranksFile, none', own])
      obtain ⟨ranks', known, stood'⟩ : ∃ ranks', (held h.id).or (readRanks files p h.id) = some ranks' ∧
          Standing files h.id ranks' := by
        cases given : held h.id with
        | none => exact ⟨ranks, by simp [read], stood⟩
        | some ranks' => exact ⟨ranks', by simp, lent h (by simp) ranks' given⟩
      simp only [known]
      refine ⟨readable, by simpa [Snapshot.bare, snapshotOf] using bare, ?_, ?_⟩
      · intro s listed
        rcases List.mem_cons.mp listed with rfl | later
        · exact stood'
        · exact stands s later
      · intro id there
        rcases Finset.mem_insert.mp there with rfl | later
        · exact present
        · exact written id later
    · obtain ⟨readable, bare, stands, written⟩ := ih inline' out' lent'
      refine ⟨readable, by simp [bare, Snapshot.bare, snapshotOf], ?_, written⟩
      intro s listed
      rcases List.mem_cons.mp listed with rfl | later
      · exact Standing.empty
      · exact stands s later

end ManifestIo

omit [SerdeJson] in
/-- Identifiers and bases are all that is looked at. -/
theorem Lists.of_kin {l' : List Snapshot} (same : l'.map Snapshot.kin = l.map Snapshot.kin)
    (lists : Lists drawn l) :
    Lists drawn l' := by
  have known : ∀ t ∈ l', ∃ s ∈ l, s.kin = t.kin := by
    intro t listed
    have there : t.kin ∈ l.map Snapshot.kin := same ▸ List.mem_map_of_mem listed
    exact List.mem_map.mp there
  have back : ∀ s ∈ l, ∃ t ∈ l', t.kin = s.kin := by
    intro s listed
    have there : s.kin ∈ l'.map Snapshot.kin := same ▸ List.mem_map_of_mem listed
    exact List.mem_map.mp there
  constructor
  · have ids : l'.map (·.id) = l.map (·.id) := by
      simpa [Function.comp_def, Snapshot.kin] using congrArg (List.map Prod.fst) same
    rw [Distinct, ids]
    exact lists.distinct
  · intro d listed base delta
    obtain ⟨s, there, alike⟩ := known d listed
    obtain ⟨b, present, own, full⟩ := lists.closed s there base ((congrArg Prod.snd alike).trans delta)
    obtain ⟨t, again, kin⟩ := back b present
    exact ⟨t, again, (congrArg Prod.fst kin).trans own, (congrArg Prod.snd kin).trans full⟩
  · intro s listed
    obtain ⟨t, there, alike⟩ := known s listed
    have drew := lists.known t there
    change t.kin ∈ drawn at drew
    rwa [alike] at drew

omit [SerdeJson] in
theorem map_kin_bare {l' : List Snapshot} (same : l'.map Snapshot.bare = l.map Snapshot.bare) :
    l'.map Snapshot.kin = l.map Snapshot.kin := by
  have mapped := congrArg (List.map Snapshot.kin) same
  rw [List.map_map, List.map_map] at mapped
  exact mapped

namespace Coordinator

/-- A re-read takes the record for the list, or finds none and keeps the list. -/
theorem reloadManifest_intact :
    Triple (fun w => Intact drawn dead coming first w ∧ At l r f before w) reloadManifest
    (fun _ w => Intact drawn dead coming first w ∧ ∃ l', At l' r f before w ∧
      (l' = l ∨ l'.map Snapshot.bare = r))
    fun _ w => Intact drawn dead coming first w ∧ At l r f before w := by
  apply Triple.get_bind
  rintro w₀ w ⟨rfl, held, at_⟩
  cases read : reloaded true w.disk.files w.manifest with
  | error e => exact ⟨held, at_⟩
  | ok m =>
    change Intact drawn dead coming first { w with manifest := m } ∧
      ∃ l', At l' r f before { w with manifest := m } ∧ (l' = l ∨ l'.map Snapshot.bare = r)
    simp only [reloaded, if_true, Library.Outcome.map_eq_ok] at read
    obtain ⟨there, loaded, rfl⟩ := read
    unfold ManifestIo.load at loaded
    cases found : w.disk.files.find? .manifestJson with
    | none =>
      simp only [found, Except.ok.injEq] at loaded
      subst loaded
      exact ⟨held, l, at_, .inl rfl⟩
    | some data =>
      simp only [found, Library.Outcome.bind_eq_ok, Library.Outcome.mapError_eq_ok,
        Library.Outcome.pure_eq_ok] at loaded
      obtain ⟨index, decoded, rfl⟩ := loaded
      have heads : ManifestIo.heads w.disk.files = index.snapshots := by
        simp [ManifestIo.heads, found, decoded, Except.toOption]
      have sane := held.sane
      have lists := sane.lists
      rw [← held.replayed] at lists
      obtain ⟨readable, bare, stands, written⟩ := @ManifestIo.readHeads_standing _ w.disk.files
        (ManifestIo.heldRanks w.manifest) index.snapshots
        (fun h listed ranks own => by
          have inline := sane.inline
          rw [← held.replayed, heads] at inline
          exact inline h listed ranks own)
        (fun h listed p out => by
          have files := sane.ranks
          have texts := sane.texts
          rw [← held.replayed, heads] at files texts
          obtain ⟨rfl, present⟩ := files h listed p out
          obtain ⟨text, stored⟩ := Option.isSome_iff_exists.mp present
          obtain ⟨ranks, parsed, stood⟩ := texts h listed text (put_of_replay (held.replayed ▸ stored))
          exact ⟨present, ranks, by
            simp [ManifestIo.readRanks, Storage.get, stored, parsed, Except.toOption], stood⟩)
        (fun h listed ranks given => by
          obtain ⟨s, present, same, _, rfl⟩ := ManifestIo.heldRanks_eq_some given
          exact same ▸ held.stands s present)
      simp only [readable, List.isEmpty_nil, if_true, Option.getD_some]
      refine ⟨held.relist ?_ stands (fun t listed => ?_) (fun id near => ⟨near, fun t listed same => ?_⟩)
        fun id there _ => written id there, _, at_.relist, .inr ?_⟩
      · apply Lists.of_kin _ lists
        apply map_kin_bare
        rw [bare, ManifestIo.recorded, heads]
        simp [Function.comp_def, Snapshot.bare, ManifestIo.snapshotOf]
      · have present : t.bare ∈ index.snapshots.map (ManifestIo.snapshotOf · ∅) :=
          bare ▸ List.mem_map_of_mem listed
        obtain ⟨h, named, same⟩ := List.mem_map.mp present
        refine .inr (.inl ⟨h, heads ▸ named, ?_⟩)
        exact congrArg Snapshot.id same
      · have present : t.bare ∈ index.snapshots.map (ManifestIo.snapshotOf · ∅) :=
          bare ▸ List.mem_map_of_mem listed
        obtain ⟨h, named, alike⟩ := List.mem_map.mp present
        exact (held.unlisted id near).2.1 h (heads ▸ named) ((congrArg Snapshot.id alike).trans same)
      · rw [bare, ← heads, ← at_.record]
        rfl

/-- Dead already, or evicted now. -/
def Retired (dead : Uuid → Prop) (evicted : List Snapshot) (id : Uuid) :
    Prop := dead id ∨ ∃ d ∈ evicted, d.id = id

/-- A store after retention: what was evicted is listed nowhere, and its files are its own. -/
structure Retains (drawn : Drawn) (dead coming : Uuid → Prop) (first : Nat) (l : List Snapshot) (f : InFlight)
    (before : Files) (evicted : List Snapshot) (w : World) : Prop where
  intact : Intact drawn (Retired dead evicted) coming first w
  left : ∃ l' r', At l' r' f before w ∧ Among l l'
  among : Among l evicted
  housed : ∀ d ∈ evicted, d.Housed

theorem applyRetention_retains [LawfulSerdeJson] :
    Triple (fun w => Intact drawn dead coming first w ∧ At l r f before w) applyRetention
      (Retains drawn dead coming first l f before) fun _ =>
        Retains drawn dead coming first l f before [] := by
  rintro w ⟨held, at_⟩
  have outcome := applyRetention_intact w ⟨held, at_⟩
  cases ran : applyRetention w with
  | error e w' =>
    rw [ran] at outcome
    obtain ⟨intact, l', at', among⟩ := outcome
    refine ⟨intact.bury (fun _ => .inl) (fun s listed gone => ?_) fun h listed gone => ?_,
      ⟨l', r, at', among⟩,
      by simp [Among], by simp⟩
    · exact intact.alive s listed (gone.resolve_right (by simp))
    · exact intact.spared h listed (gone.resolve_right (by simp))
  | ok evicted w' =>
    rw [ran] at outcome
    obtain ⟨intact, ⟨l', at', among, from_, apart⟩⟩ := outcome
    refine ⟨intact.bury (fun _ => .inl) ?_ ?_, ⟨l', _, at', among⟩, from_, ?_⟩
    · rintro s listed (old | ⟨d, gone, same⟩)
      · exact intact.alive s listed old
      · exact apart d gone s (at'.list ▸ listed) same.symm
    · rintro h listed (old | ⟨d, gone, same⟩)
      · exact intact.spared h listed old
      · obtain ⟨t, there, own⟩ := at'.heads h listed
        exact apart d gone t there (own.trans same.symm)
    · intro d gone p named
      obtain ⟨s, listed, own, ranks⟩ := from_ d gone
      rw [Snapshot.filesOf_eq, ← ranks] at named
      rw [← own]
      exact ((held.stands s (at_.list ▸ listed)).file named).1

section
variable {cfg : Config} {snapId : Uuid} {base : Option Snapshot} {context : SnapshotContext}
  {entry : RankEntry}
  {shards : RankMap} {s : Snapshot} {coming' : Uuid → Prop}

/-- A snapshot that was coming is listed. -/
theorem push_intact (held : Intact drawn dead coming first w) (near : coming s.id) (alive : ¬ dead s.id)
    (known : (s.id, s.baseSnapshotId) ∈ drawn) (stands : Standing w.disk.files s.id s.ranks)
    (based : ∀ base, s.baseSnapshotId = some base →
      ∃ b ∈ w.manifest.snapshots, b.id = base ∧ b.baseSnapshotId = none)
    (fewer : ∀ id, coming' id → coming id ∧ id ≠ s.id) :
    Triple (fun w' => w' = w) (push s) (fun _ w' => Intact drawn dead coming' first w' ∧
      At (w.manifest.snapshots ++ [s]) (ManifestIo.recorded w.disk.files) w.inFlight w.disk.files
        w') fun _ _ => False := by
  apply Triple.modified
  rintro w rfl
  have fresh := held.unlisted s.id near
  constructor
  · apply held.relist (held.lists.push known fresh.1 based)
    · intro t listed
      rcases List.mem_append.mp listed with before | new
      · exact held.stands t before
      · obtain rfl := List.mem_singleton.mp new
        exact stands
    · intro t listed
      rcases List.mem_append.mp listed with before | new
      · exact .inl ⟨t, before, rfl⟩
      · obtain rfl := List.mem_singleton.mp new
        exact .inr (.inr ⟨near, alive⟩)
    · intro id close
      obtain ⟨still, apart⟩ := fewer id close
      refine ⟨still, fun t listed => ?_⟩
      rcases List.mem_append.mp listed with before | new
      · exact (held.unlisted id still).1 t before
      · obtain rfl := List.mem_singleton.mp new
        exact apart.symm
    · exact held.written
  · exact ⟨rfl, rfl, rfl, fun _ there => there⟩

theorem listUnfinalized_intact [LawfulSerdeJson] (held : Intact drawn dead coming first w)
    (near : coming snapId)
    (alive : ¬ dead snapId) (known : (snapId, base.map (·.id)) ∈ drawn)
    (based : ∀ b, base = some b → ∃ t ∈ w.manifest.snapshots, t.id = b.id ∧ t.baseSnapshotId = none)
    (fewer : ∀ id, coming' id → coming id ∧ id ≠ snapId) :
    Triple (fun w' => w' = w) (listUnfinalized cfg snapId base context)
      (fun _ w' => Intact drawn dead coming' first w' ∧ ∃ r',
        At (w.manifest.snapshots ++ [unfinalized cfg snapId base context]) r' w.inFlight w.disk.files w')
      (fun _ w' => Intact drawn dead coming' first w' ∧ ∃ r',
        At (w.manifest.snapshots ++ [unfinalized cfg snapId base context]) r' w.inFlight
          w.disk.files w') := by
  apply Triple.bind
  · apply Triple.weaken _ (push_intact (s := unfinalized cfg snapId base context) held near alive
      known Standing.empty _ fewer)
      (fun _ start => start) (fun _ _ left => left) (fun _ _ no => no.elim)
    intro b rooted
    obtain ⟨t, same, rfl⟩ := Option.map_eq_some_iff.mp rooted
    exact based t same
  · intro _
    exact Triple.weaken _ ManifestIo.persist_intact (fun _ held => held) (fun _ _ held => ⟨held.1, _, held.2⟩)
      fun _ _ held => ⟨held.1, _, held.2⟩

/-- A save whose pack is there is listed, and retention chooses who leaves. -/
theorem listSaved_retains [LawfulSerdeJson] (held : Intact drawn dead coming first w) (near : coming snapId)
    (alive : ¬ dead snapId) (known : (snapId, base.map (·.id)) ∈ drawn)
    (based : ∀ b, base = some b → ∃ t ∈ w.manifest.snapshots, t.id = b.id ∧ t.baseSnapshotId = none)
    (fewer : ∀ id, coming' id → coming id ∧ id ≠ snapId)
    (packed : ∃ rank, entry.Packed snapId rank ∧ (w.disk.files.find? (packPath snapId rank)).isSome = true) :
    Triple (fun w' => w' = w) (listSaved cfg snapId base context entry)
      (Retains drawn dead coming' first (w.manifest.snapshots ++ [snapshotOf cfg snapId base context entry])
        w.inFlight w.disk.files)
      fun _ => Retains drawn dead coming' first
        (w.manifest.snapshots ++ [snapshotOf cfg snapId base context entry]) w.inFlight w.disk.files [] := by
  apply Triple.bind
  · apply Triple.weaken _
      (push_intact (s := snapshotOf cfg snapId base context entry) held near alive known _ _ fewer)
      (fun _ start => start) (fun _ _ left => left) (fun _ _ no => no.elim)
    · have own : ∀ e ∈ [(cfg.rank, entry)], ∃ rank, e.2.Packed snapId rank ∧
          (w.disk.files.find? (packPath snapId rank)).isSome = true := by simpa using packed
      exact standing_ofList own
    · intro b rooted
      obtain ⟨t, same, rfl⟩ := Option.map_eq_some_iff.mp rooted
      exact based t same
  · intro _
    exact applyRetention_retains

/-- A snapshot put together from its packs. -/
theorem listFinalized_retains [LawfulSerdeJson] (held : Intact drawn dead coming first w)
    (stood : (∃ s ∈ w.manifest.snapshots, s.id = snapId) → Standing w.disk.files snapId shards) :
    Triple (fun w' => w' = w) (listFinalized cfg snapId shards)
      (fun evicted w' => ∃ l, l.map Snapshot.kin = w.manifest.snapshots.map Snapshot.kin ∧
        Retains drawn dead coming first l w.inFlight w.disk.files evicted w')
      fun _ w' => ∃ l, l.map Snapshot.kin = w.manifest.snapshots.map Snapshot.kin ∧
        Retains drawn dead coming first l w.inFlight w.disk.files [] w' := by
  apply Triple.get_bind_of
  cases made : assemble cfg snapId shards w.manifest with
  | error e =>
    apply Triple.returning_error rfl
    rintro w rfl
    refine ⟨_, rfl, ?_, ⟨_, _, At.refl, Among.refl⟩, by simp [Among], by simp⟩
    apply held.bury (fun _ => .inl)
    · exact fun s listed gone => held.alive s listed (gone.resolve_right (by simp))
    · exact fun h listed gone => held.spared h listed (gone.resolve_right (by simp))
  | ok m =>
    apply Triple.returning_ok rfl
    obtain ⟨_, before, s, after, split, _, own, same⟩ := assemble_eq_ok made
    have kin : m.snapshots.map Snapshot.kin = w.manifest.snapshots.map Snapshot.kin := by
      rw [same, split]
      simp [Snapshot.kin]
    have known : ∀ t ∈ m.snapshots, ∃ u ∈ w.manifest.snapshots, u.kin = t.kin := by
      intro t listed
      have there : t.kin ∈ w.manifest.snapshots.map Snapshot.kin := kin ▸ List.mem_map_of_mem listed
      exact List.mem_map.mp there
    apply Triple.modify_bind fun w' => Intact drawn dead coming first w' ∧
      At m.snapshots (ManifestIo.recorded w.disk.files) w.inFlight w.disk.files w'
    · rintro w rfl
      constructor
      · apply held.relist (Lists.of_kin kin held.lists)
        · intro t listed
          rw [same] at listed
          rcases List.mem_append.mp listed with earlier | rest
          · exact held.stands t (split ▸ List.mem_append_left _ earlier)
          · rcases List.mem_cons.mp rest with rfl | later
            · exact own ▸ stood ⟨s, by simp [split], own⟩
            · exact held.stands t (by simp [split, later])
        · intro t listed
          obtain ⟨u, there, alike⟩ := known t listed
          exact .inl ⟨u, there, congrArg Prod.fst alike⟩
        · intro id near
          refine ⟨near, fun t listed other => ?_⟩
          obtain ⟨u, there, alike⟩ := known t listed
          exact (held.unlisted id near).1 u there ((congrArg Prod.fst alike).trans other)
        · rw [same]
          exact held.written
      · exact ⟨rfl, rfl, rfl, fun _ there => there⟩
    · intro _
      exact Triple.weaken _ applyRetention_retains (fun _ start => start) (fun _ _ left => ⟨_, kin, left⟩)
        fun _ _ left => ⟨_, kin, left⟩

end
end Coordinator
end
end Moonclip
