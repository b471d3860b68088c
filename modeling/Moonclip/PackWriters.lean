import Moonclip.SelfDescription
import Moonclip.Threads

/-! The two writers of packs: the ranks that save a snapshot each write their own, and
a full merge writes one for every rank it folds. What either leaves describes itself. -/
namespace Moonclip
open Library.Codec Library.Effect Library.Files Library.Outcome Library.Tables

section
variable [Xxh3] [SerdeJson] {files : Files} {s : Snapshot}
  {went : Nat → List ProcessedTensor → Prop} {r : Nat}
  {e : RankEntry} {id : Uuid} {describe : RankEntry → PackDescriptor}

/-- The pack of a rank is made of tensors that `went` into it, and says whose it is. -/
structure RankWritten (files : Files) (id : Uuid) (describe : RankEntry → PackDescriptor)
    (went : Nat → List ProcessedTensor → Prop) (r : Nat) (e : RankEntry) : Prop where
  own : e.rank = r
  pack : ∃ pts parts page, went r pts ∧ (∀ pt ∈ pts, Matches pt) ∧
    e.tensors = (Coordinator.assignOffsets Pack.headerLen pts).map (·.entry) ∧
    Coordinator.packParts (describe e)
      (Coordinator.blobsOf (Coordinator.assignOffsets Pack.headerLen pts)) = .ok parts ∧
    (pad page parts.flatten).length < 2 ^ 64 ∧ files.find? (packPath id r) = some (pad page parts.flatten)

theorem RankWritten.holds (written : RankWritten files id describe went r e) :
    HoldsPack files (packPath id r) (describe e) := by
  obtain ⟨pts, parts, page, _, _, _, made, fits, stored⟩ := written.pack
  exact ⟨_, parts, page, made, fits, stored⟩

theorem RankWritten.congr {files' : Files} (written : RankWritten files id describe went r e)
    (same : files'.find? (packPath id r) = files.find? (packPath id r)) :
    RankWritten files' id describe went r e := by
  obtain ⟨own, pts, parts, page, made, each, tensors, packed, fits, stored⟩ := written
  exact ⟨own, pts, parts, page, made, each, tensors, packed, fits, same.trans stored⟩

/-- A snapshot its packs tell everything about: they give it back, each holds its
entries' blobs where they say, and with one of them damaged nothing is given back. -/
structure SelfDescribed (files : Files) (s : Snapshot) (went : Nat → List ProcessedTensor → Prop) : Prop where
  rebuilt : Recovery.rebuildFromPacks files (.uuid s.id) (Recovery.filesIn files (.uuid s.id)) =
    some s.unpinned
  laid : ∀ r e, s.ranks[r]? = some e → ∃ pack pts, files.find? (packPath s.id r) = some pack ∧ went r pts ∧
    LaidOut pack pts e.tensors
  damaged : ∀ files' : Files, (∃ r ∈ s.ranks, Assembling.Fault files' s.id r) →
    (∀ r ∈ s.ranks, Assembling.Fault files' s.id r ∨
      files'.find? (packPath s.id r) = files.find? (packPath s.id r)) →
    OnlyPacks files' s.id (· ∈ s.ranks) →
    Recovery.rebuildFromPacks files' (.uuid s.id) (Recovery.filesIn files' (.uuid s.id)) = none

theorem selfDescribed [LawfulSerdeJson] (done : s.finalized = true) (some_ : r ∈ s.ranks)
    (packs : ∀ r e, s.ranks[r]? = some e → RankWritten files s.id (s.describing s.ranks.size) went r e)
    (only : OnlyPacks files s.id (· ∈ s.ranks)) : SelfDescribed files s went := by
  constructor
  · exact Recovery.rebuildFromPacks_whole done some_
      (fun r e entry => ⟨(packs r e entry).own, (packs r e entry).holds⟩)
      only
  · intro r e entry
    obtain ⟨pts, parts, page, made, each, tensors, packed, fits, stored⟩ := (packs r e entry).pack
    rw [tensors]
    exact ⟨_, pts, stored, made, Coordinator.laidOut_pack each packed fits⟩
  · rintro files' ⟨r, listed, fault⟩ left only'
    apply Recovery.rebuildFromPacks_damaged listed fault _ only'
    intro r e entry
    apply (left r (mem_of_getElem? entry)).imp_right
    intro same
    obtain ⟨blobs, parts, page, made, fits, stored⟩ := (packs r e entry).holds
    exact ⟨(packs r e entry).own, blobs, parts, page, made, fits, same.trans stored⟩

omit [Xxh3] in
/-- A pin is nothing the packs tell of. -/
theorem SelfDescribed.of_unpinned (described : SelfDescribed files s.unpinned went) :
    SelfDescribed files s went :=
  ⟨described.rebuilt, described.laid, described.damaged⟩

end

namespace Coordinator

/-- One rank's save: what it was given, the world before it and after. -/
structure RankSave where
  base : Option Snapshot
  tensors : List TensorData
  before : World
  after : World
  entry : RankEntry

/-- The tensors that went into the pack of a rank. -/
def savedInto [Zstd] [Xxh3] (cfg : Config) (saves : Nat → RankSave) (r : Nat)
    (pts : List ProcessedTensor) : Prop :=
  processAll { cfg with rank := r } (saves r).before.disk.files
    (buildBaseCache r (saves r).before.retainedBase (saves r).base) (saves r).tensors = .ok pts

/-- Every rank of a run has written its pack of one snapshot, against one base, and the
packs are there. -/
structure AllWrote [Zstd] [Xxh3] [SerdeJson] (cfg : Config) (snapId : Uuid) (base : Option Snapshot)
    (context : SnapshotContext) (ranks : List Nat) (saves : Nat → RankSave) (files : Files) : Prop where
  once : ranks.Nodup
  all : ranks.length = cfg.worldSize
  anyone : ranks ≠ []
  based : ∀ r ∈ ranks, (saves r).base.map (·.id) = base.map (·.id)
  wrote : ∀ r ∈ ranks, saveRankTensors { cfg with rank := r } snapId (saves r).base (saves r).tensors context
    (saves r).before = .ok (saves r).entry (saves r).after
  bounded : ∀ r ∈ ranks, ∀ p body, (saves r).before.disk.accepts p body = true → body.length < 2 ^ 64
  there : ∀ r ∈ ranks, files.find? (packPath snapId r) = (saves r).after.disk.files.find? (packPath snapId r)
  only : OnlyPacks files snapId (· ∈ ranks)

/-- The ranks of a snapshot, each with the entry its save returned. -/
def savedRanks (ranks : List Nat) (saves : Nat → RankSave) : RankMap :=
  .ofList (ranks.map fun r => (r, (saves r).entry))

section
variable {ranks : List Nat} {saves : Nat → RankSave} {r : Nat} {e : RankEntry}

theorem getElem?_savedRanks (once : ranks.Nodup) :
    (savedRanks ranks saves)[r]? = some e ↔ r ∈ ranks ∧ e = (saves r).entry := by
  have distinct : ((ranks.map fun r => (r, (saves r).entry)).map Prod.fst).Nodup := by
    simpa [Function.comp_def] using once
  rw [savedRanks, getElem?_ofList_eq_some distinct, List.mem_map]
  constructor
  · rintro ⟨r, there, same⟩
    obtain ⟨rfl, rfl⟩ := Prod.mk.inj same
    exact ⟨there, rfl⟩
  · rintro ⟨there, rfl⟩
    exact ⟨r, there, rfl⟩

theorem mem_savedRanks (once : ranks.Nodup) : r ∈ savedRanks ranks saves ↔ r ∈ ranks := by
  constructor
  · intro there
    obtain ⟨e, entry⟩ := exists_of_mem there
    exact ((getElem?_savedRanks once).mp entry).1
  · intro there
    exact mem_of_getElem? ((getElem?_savedRanks once).mpr ⟨there, rfl⟩)

theorem size_savedRanks (once : ranks.Nodup) : (savedRanks ranks saves).size = ranks.length := by
  have distinct : ((ranks.map fun r => (r, (saves r).entry)).map Prod.fst).Nodup := by
    simpa [Function.comp_def] using once
  rw [savedRanks, size_ofList distinct, List.length_map]

end

variable [Zstd] [Xxh3] [SerdeJson] {cfg : Config} {snapId : Uuid} {base : Option Snapshot}
  {context : SnapshotContext} {ranks : List Nat} {saves : Nat → RankSave} {files : Files}
    {r : Nat} {s : Snapshot}

/-- A snapshot of these ranks, as they were told of it. -/
def savedSnapshot (cfg : Config) (snapId : Uuid) (base : Option Snapshot) (context : SnapshotContext)
    (ranks : List Nat) (saves : Nat → RankSave) : Snapshot :=
  { unfinalized cfg snapId base context with ranks := savedRanks ranks saves, finalized := true }

theorem AllWrote.rank (all : AllWrote cfg snapId base context ranks saves files) (there : r ∈ ranks) :
    RankWritten files snapId
      (Snapshot.describing (savedSnapshot cfg snapId base context ranks saves) cfg.worldSize)
      (savedInto cfg saves) r (saves r).entry := by
  obtain ⟨taken, parts, made, disk, _, _⟩ :=
    (saveRankTensors_spec (w := (saves r).before)).ok rfl (all.wrote r there)
  simp only [packWritten, made] at taken
  have fits := all.bounded r there _ _ taken
  simp only [packOfSave, Library.Outcome.bind_eq_ok, Library.Outcome.pure_eq_ok, Prod.mk.injEq] at made
  obtain ⟨pts, processed, parts', packed, entry, rfl⟩ := made
  constructor
  · rw [← entry]
    rfl
  · refine ⟨pts, parts', _, processed, matches_processAll processed, ?_, ?_, fits, ?_⟩
    · rw [← entry]
      rfl
    · rw [← entry, ← packed, all.based r there]
      rfl
    · refine (all.there r there).trans ?_
      rw [disk]
      exact FileStore.find?_put_self

/-- Every rank's pack is there, and they tell everything. -/
theorem AllWrote.selfDescribed [LawfulSerdeJson] (all : AllWrote cfg snapId base context ranks saves files) :
    SelfDescribed files (savedSnapshot cfg snapId base context ranks saves) (savedInto cfg saves) := by
  obtain ⟨r, rest, split⟩ := List.exists_cons_of_ne_nil all.anyone
  have there : r ∈ ranks := by simp [split]
  apply Moonclip.selfDescribed (r := r) rfl ((mem_savedRanks all.once).mpr there)
  · intro r e entry
    obtain ⟨there, rfl⟩ := (getElem?_savedRanks all.once).mp entry
    have sized : (savedSnapshot cfg snapId base context ranks saves).ranks.size = cfg.worldSize :=
      (size_savedRanks all.once).trans all.all
    rw [sized]
    exact all.rank there
  · intro name pack found
    obtain ⟨r, there, rfl⟩ := all.only name pack found
    exact ⟨r, (mem_savedRanks all.once).mpr there, rfl⟩

/-- Rank 0 can put the snapshot together from these packs, and gets it as it was written. -/
theorem AllWrote.assembled [LawfulSerdeJson] (all : AllWrote cfg snapId base context ranks saves files)
    {m : Manifest} (found : m.findSnapshot snapId = some s)
    (alike : s.unpinned = unfinalized cfg snapId base context) :
    ∃ m' t, finalized cfg files snapId m = .ok m' ∧ m'.findSnapshot snapId = some t ∧
      SelfDescribed files t (savedInto cfg saves) := by
  have each : ∀ p ∈ packsOf files snapId, ∃ e, shardOf files snapId p = .ok e ∧
      ∃ r ∈ ranks, p = packPath snapId r ∧ e = (saves r).entry := by
    intro p listed
    rw [Recovery.packsOf_eq] at listed
    obtain ⟨name, rfl, pack, there⟩ := Recovery.mem_packs.mp listed
    obtain ⟨r, known, rfl⟩ := all.only name pack there
    exact ⟨_, Recovery.shardOf_of_descriptorOf (all.rank known).holds.read, r, known, rfl, rfl⟩
  obtain ⟨shards, pairs⟩ := exists_results each
  have read : (packsOf files snapId).mapM (shardOf files snapId) = .ok shards :=
    mapM_eq_ok.mpr (pairs.imp fun p e read => read.1)
  have mapped : shardMap shards = savedRanks ranks saves := by
    apply ofList_eq
    · intro r e bound
      obtain ⟨shard, there, same⟩ := List.mem_map.mp bound
      obtain ⟨p, _, _, r', known, _, rfl⟩ := exists_item pairs there
      obtain ⟨rfl, rfl⟩ := Prod.mk.inj same
      rw [(all.rank known).own]
      exact (getElem?_savedRanks all.once).mpr ⟨known, rfl⟩
    · intro r e entry
      obtain ⟨known, rfl⟩ := (getElem?_savedRanks all.once).mp entry
      have listed : packPath snapId r ∈ packsOf files snapId := by
        rw [Recovery.packsOf_eq]
        exact Recovery.mem_packs.mpr ⟨_, rfl, rfl, (all.rank known).holds.isSome⟩
      obtain ⟨e, there, _, r', _, path, rfl⟩ := exists_result pairs listed
      obtain ⟨_, rfl⟩ := packPath_inj.mp path
      exact List.mem_map.mpr ⟨_, there, by rw [(all.rank known).own]⟩
  have enough : ¬ (shardMap shards).size < cfg.worldSize := by
    rw [mapped, size_savedRanks all.once, all.all]
    exact Nat.lt_irrefl _
  have put : ∃ m', assemble cfg snapId (shardMap shards) m = .ok m' := by
    unfold assemble
    rw [found, if_neg (by simp), if_neg enough]
    exact ⟨_, rfl⟩
  obtain ⟨m', made⟩ := put
  obtain ⟨_, before, u, after, split, older, named, rfl⟩ := assemble_eq_ok made
  have unnamed : before.find? (·.id == snapId) = none := by simpa using older
  have same : u = s := by
    simp only [Manifest.findSnapshot, split, List.find?_append, unnamed, Option.none_or] at found
    simpa [named] using found
  have collected : finalized cfg files snapId m = assemble cfg snapId (shardMap shards) m := by
    rw [finalized, collectRankShards, read]
    rfl
  have whole : Snapshot.unpinned { u with ranks := shardMap shards, finalized := true } =
      savedSnapshot cfg snapId base context ranks saves := by
    rw [savedSnapshot, ← alike, ← same, mapped]
    rfl
  refine ⟨_, { u with ranks := shardMap shards, finalized := true }, collected.trans made, ?_, ?_⟩
  · simp [Manifest.findSnapshot, List.find?_append, unnamed, named]
  · apply SelfDescribed.of_unpinned
    rw [whole]
    exact all.selfDescribed

end Coordinator
end Moonclip
