import Moonclip.MergedPacks
import Moonclip.Runs

/-! Packs describe themselves: whichever way a snapshot came to be listed, its packs
give it back. A pack that lost only its padding is whole, and a snapshot without ranks
has no pack to be found by. -/
namespace Moonclip
open Library.Codec Library.Effect Library.Files Library.Tables

namespace Coordinator
variable [Zstd] [Xxh3] [SerdeJson] [LawfulSerdeJson] {cfg : Config} {snapId : Uuid} {base : Option Snapshot}
  {context : SnapshotContext} {saves : Nat → RankSave} {files : Files} {r : Nat}

/-- A rank on its own lists its snapshot itself. -/
theorem AllWrote.alone (all : AllWrote cfg snapId base context [r] saves files) :
    SelfDescribed files (snapshotOf { cfg with rank := r } snapId (saves r).base context (saves r).entry)
      (savedInto cfg saves) := by
  have same : snapshotOf { cfg with rank := r } snapId (saves r).base context (saves r).entry =
      savedSnapshot cfg snapId base context [r] saves := by
    rw [snapshotOf, all.based r (by simp)]
    rfl
  rw [same]
  exact all.selfDescribed

end Coordinator

/-- What the ranks of a run save, and what a full merge leaves, the packs tell: from
them the snapshot is rebuilt as it is listed, every blob is where its entry says, and
nothing is rebuilt where a pack is damaged. -/
theorem packs_describe_themselves [Zstd] [Xxh3] [SerdeJson] [LawfulSerdeJson] :
    (∀ (cfg : Config) (snapId : Uuid) (base : Option Snapshot) (context : SnapshotContext) (ranks : List Nat)
        (saves : Nat → Coordinator.RankSave) (files : Files),
      Coordinator.AllWrote cfg snapId base context ranks saves files →
      (∀ m s, m.findSnapshot snapId = some s → s.unpinned = Coordinator.unfinalized cfg snapId base context →
        ∃ m' t, Coordinator.finalized cfg files snapId m = .ok m' ∧ m'.findSnapshot snapId = some t ∧
          SelfDescribed files t (Coordinator.savedInto cfg saves)) ∧
      ∀ r, ranks = [r] → SelfDescribed files
        (Coordinator.snapshotOf { cfg with rank := r } snapId (saves r).base context (saves r).entry)
        (Coordinator.savedInto cfg saves)) ∧
    ∀ (algo : CompressionAlgo) (id : Uuid) (now : Nat) (w after : World),
      (∀ p body, w.disk.accepts p body = true → body.length < 2 ^ 64) → Merger.Unused id w →
      Merger.doFullMerge algo id now w = .ok .merged after → ∃ base deltas last t,
        Merger.fullPlan w.manifest = .ok (.fold base deltas) ∧ deltas.getLast? = some last ∧
        after.manifest.findSnapshot id = some t ∧ (Merger.allRanks base last ≠ [] →
          SelfDescribed after.disk.files t (Merger.mergedInto w.disk.files base last
            (Merger.mergedContext id now algo last deltas.length))) := by
  constructor
  · intro cfg snapId base context ranks saves files all
    constructor
    · intro m s found alike
      exact all.assembled found alike
    · rintro r rfl
      exact all.alone
  · intro algo id now w after bounded unused ran
    exact Merger.doFullMerge_selfDescribed bounded unused ran

namespace Described

def config : Config := { plainConfig .none with worldSize := 2 }

/-- What each of two ranks gives to the save. -/
def tensors (r : Nat) : List TensorData := if r = 0 then [Pair.weight, Pair.bias] else [Pair.changed]

def entry (r : Nat) : RankEntry :=
  Coordinator.rankEntryOf r (packPath 7 r)
    (if r = 0 then [Pair.bodyEntry Pair.weight 32, Pair.bodyEntry Pair.bias 34] else
      [Pair.bodyEntry Pair.changed 32])

/-- A full snapshot and a delta in which one of two tensors has changed. -/
def folding : World :=
  { blankWorld with
    disk := { blankWorld.disk with
      files :=
        (FileStore.empty.put (packPath 7 0) (List.replicate Pack.headerLen 0 ++ [1, 2, 3])).put (packPath 8 0)
        (List.replicate Pack.headerLen 0 ++ [4]) }
    manifest := { Manifest.default with snapshots := [Pair.full, Pair.delta 8 200], ranksWritten := {7, 8} } }

def context : Merger.MergedContext := Merger.mergedContext 9 6 .none (Pair.delta 8 200) 1

def mergedEntry : RankEntry :=
  Merger.mergedRankEntry 0 (packPath 9 0)
    [⟨Pair.bodyEntry Pair.weight 32, some [1, 2]⟩, ⟨Pair.bodyEntry Pair.changed 34, some [4]⟩]

def merged : Snapshot := Merger.mergedSnapshot context [(0, mergedEntry)]

abbrev serde : SerdeJson :=
  JsonText.serde (fun _ => [])
    [ManifestIo.indexOf { Manifest.default with snapshots := [merged], ranksWritten := {9} }]
    [⟨9, merged.ranks⟩]
    [⟨7, 100, 5, none, ∅, .none, 2, entry 0⟩, ⟨7, 100, 5, none, ∅, .none, 2, entry 1⟩,
      Merger.describeMerged context 1 mergedEntry] []

def save (r : Nat) : EStateM MoonclipError World RankEntry :=
  @Coordinator.saveRankTensors serde Linked.zstd Linked.xxh3 { config with rank := r } 7 none
    (tensors r) Lone.context

def fold : EStateM MoonclipError World MergeOutcome :=
  @Merger.doFullMerge Linked.zstd Linked.xxh3 serde .none 9 6

/-- The second rank saves after the first. -/
def before (r : Nat) : World := if r = 0 then blankWorld else finalState (save 0) blankWorld

def saves (r : Nat) : Coordinator.RankSave :=
  ⟨none, tensors r, before r, finalState (save r) (before r), entry r⟩

def packs : Files := (saves 1).after.disk.files

theorem unused : Merger.Unused 9 folding where
  unlisted := by decide +kernel
  unnamed := by decide +kernel
  absent name := by
    have other : ∀ id, id ≠ 9 → Path.snapshots (.uuid 9) name ≠ packPath id 0 := by
      rintro id different same
      exact different (Directory.uuid.inj (Path.snapshots.inj same).1).symm
    exact (FileStore.find?_put_of_ne (other 8 (by decide))).trans
      (FileStore.find?_put_of_ne (other 7 (by decide)))

end Described

/-- Two ranks save a snapshot of several tensors, which is then finalized; a full and a
delta are folded. -/
theorem packs_describe_themselves_twoRanks :
    let _ := Linked.zstd
    let _ := Linked.xxh3
    let _ := Described.serde
    (∃ m t, Coordinator.finalized Described.config Described.packs 7 { Manifest.default with
          snapshots := [Coordinator.unfinalized Described.config 7 none Lone.context] } = .ok m ∧
      m.findSnapshot 7 = some t ∧
      SelfDescribed Described.packs t (Coordinator.savedInto Described.config Described.saves)) ∧
    ∃ t, (finalState Described.fold Described.folding).manifest.findSnapshot 9 = some t ∧
      SelfDescribed (finalState Described.fold Described.folding).disk.files t
        (Merger.mergedInto Described.folding.disk.files Pair.full (Pair.delta 8 200) Described.context) := by
  intro zstd xxh3 serde
  have : LawfulSerdeJson :=
    JsonText.serde_lawful _ (by simp) (by simp) (by decide +kernel) (by simp)
  have ran : (∀ r ∈ [0, 1], value? (Described.save r) (Described.before r) = some (Described.entry r) ∧
        Described.packs.find? (packPath 7 r) = (Described.saves r).after.disk.files.find? (packPath 7 r)) ∧
      Described.packs.names = [packPath 7 1, packPath 7 0] ∧
      value? Described.fold Described.folding = some .merged := by
    decide +kernel
  obtain ⟨saved, names, folded⟩ := ran
  have bounded : ∀ p body, blankWorld.disk.accepts p body = true → body.length < 2 ^ 64 :=
    fun p body => of_decide_eq_true
  have all : Coordinator.AllWrote Described.config 7 none Lone.context [0, 1] Described.saves
    Described.packs := by
    refine ⟨by simp, rfl, by simp, fun r _ => rfl, fun r there => ok_of_value? (saved r there).1,
      fun r there => ?_,
      fun r there => (saved r there).2, fun name pack found => ?_⟩
    · rcases List.mem_pair.mp there with rfl | rfl
      · exact bounded
      · obtain ⟨_, _, _, disk, _⟩ :=
          Coordinator.saveRankTensors_spec.ok rfl (ok_of_value? (saved 0 (by simp)).1)
        have same : (Described.before 1).disk.accepts = blankWorld.disk.accepts :=
          (congrArg Disk.accepts disk : (finalState (Described.save 0) blankWorld).disk.accepts = _)
        exact same ▸ bounded
    · have listed := (FileStore.mem_names _).mpr found
      rw [names] at listed
      rcases List.mem_pair.mp listed with same | same
      · exact ⟨1, by simp, (Path.snapshots.inj same).2⟩
      · exact ⟨0, by simp, (Path.snapshots.inj same).2⟩
  have planned : Merger.fullPlan Described.folding.manifest = .ok (.fold Pair.full [Pair.delta 8 200]) := rfl
  constructor
  · exact (packs_describe_themselves.1 _ _ _ _ _ _ _ all).1 _ _ rfl rfl
  · obtain ⟨base, deltas, last, t, planned', newest, found, described⟩ :=
      packs_describe_themselves.2 .none 9 6 Described.folding _ bounded Described.unused (ok_of_value? folded)
    obtain ⟨rfl, rfl⟩ := Merger.FullPlan.fold.inj (Except.ok.inj (planned.symm.trans planned'))
    obtain rfl := Option.some.inj newest
    exact ⟨t, found, described (by decide +kernel)⟩

namespace Described

/-- The same disk, its files padded to pages. -/
def paged : World := { blankWorld with disk := { blankWorld.disk with pageSize := 4096 } }

abbrev pagedSerde : SerdeJson :=
  JsonText.serde (fun _ => []) [] [] [⟨7, 100, 5, none, ∅, .none, 1, Lone.rankEntry⟩] []

def pagedSave : Act RankEntry :=
  @Coordinator.saveRankTensors pagedSerde Linked.zstd Linked.xxh3 (plainConfig .none) 7 none [Lone.byteTensor]
    Lone.context

def pagedSaves (_ : Nat) : Coordinator.RankSave :=
  ⟨none, [Lone.byteTensor], paged, finalState pagedSave paged, Lone.rankEntry⟩

/-- A store that nobody writes to. -/
def noRanks : Config := { plainConfig .none with worldSize := 0 }

def unwritten (id : Uuid) (step : Nat) (base : Option Uuid) (finalized : Bool) : Snapshot :=
  { Coordinator.unfinalized noRanks id none ⟨step, 5, ∅⟩ with baseSnapshotId := base, finalized := finalized }

def mergedContext : Merger.MergedContext := Merger.mergedContext 3 6 .none (unwritten 2 101 (some 1) true) 1

abbrev emptySerde : SerdeJson :=
  JsonText.serde (fun _ => [])
    ([[unwritten 1 100 none false], [unwritten 1 100 none true],
      [unwritten 1 100 none true, unwritten 2 101 (some 1) false],
      [unwritten 1 100 none true, unwritten 2 101 (some 1) true],
      [Merger.mergedSnapshot mergedContext []]].map fun l =>
        ManifestIo.indexOf { Manifest.default with snapshots := l })
    [] [] []

/-- Two snapshots created and finalized, and then folded. -/
def listings : Act MergeOutcome :=
  let _ := Linked.zstd
  let _ := Linked.xxh3
  let _ := emptySerde
  do
    Coordinator.createSnapshot noRanks 1 ⟨100, 5, ∅⟩
    Coordinator.finalizeSnapshot noRanks 1
    Coordinator.createSnapshot noRanks 2 ⟨101, 5, ∅⟩
    Coordinator.finalizeSnapshot noRanks 2
    Merger.doFullMerge .none 3 6

end Described

/-- A pack cut inside its padding still tells everything; a snapshot of no ranks,
finalized or folded, is listed and has nothing to be rebuilt from. -/
theorem packs_do_not_describe_every :
    (let _ := Linked.zstd
      let _ := Linked.xxh3
      let _ := Described.pagedSerde
      ∃ files pack, Coordinator.AllWrote (plainConfig .none) 7 none Lone.context [0]
        Described.pagedSaves files ∧
        files.find? (packPath 7 0) = some pack ∧ 4095 < pack.length ∧
        Recovery.rebuildFromPacks (files.put (packPath 7 0) (pack.take 4095)) (.uuid 7)
          (Recovery.filesIn (files.put (packPath 7 0) (pack.take 4095)) (.uuid 7)) = some Lone.snapshot) ∧
    let _ := Described.emptySerde
    (∃ m, Coordinator.finalized Described.noRanks .empty 1
        { Manifest.default with snapshots := [Described.unwritten 1 100 none false] } = .ok m ∧
      m.findSnapshot 1 = some (Described.unwritten 1 100 none true) ∧
      Recovery.rebuildFromPacks .empty (.uuid 1) (Recovery.filesIn .empty (.uuid 1)) = none) ∧
    ∃ after t, Described.listings blankWorld = .ok .merged after ∧ after.manifest.findSnapshot 3 = some t ∧
      Recovery.rebuildFromPacks after.disk.files (.uuid 3)
        (Recovery.filesIn after.disk.files (.uuid 3)) = none := by
  constructor
  · intro zstd xxh3 serde
    have ran : value? Described.pagedSave Described.paged = some Lone.rankEntry ∧
        (finalState Described.pagedSave Described.paged).disk.files.names = [packPath 7 0] ∧
        ((finalState Described.pagedSave Described.paged).disk.files.find? (packPath 7 0)).map (fun pack =>
          (decide (4095 < pack.length), Recovery.rebuildFromPacks
            ((finalState Described.pagedSave Described.paged).disk.files.put (packPath 7 0)
              (pack.take 4095)) (.uuid 7)
            (Recovery.filesIn ((finalState Described.pagedSave Described.paged).disk.files.put (packPath 7 0)
              (pack.take 4095)) (.uuid 7)))) = some (true, some Lone.snapshot) := by
      decide +kernel
    obtain ⟨saved, names, cut⟩ := ran
    obtain ⟨pack, stored, cut⟩ := Option.map_eq_some_iff.mp cut
    obtain ⟨long, rebuilt⟩ := Prod.mk.inj cut
    refine ⟨_, pack, ?_, stored, of_decide_eq_true long, rebuilt⟩
    refine ⟨by simp, rfl, by simp, fun r _ => rfl, fun r there => ?_, fun r _ p body => of_decide_eq_true,
      fun r _ => rfl, fun name pack found => ?_⟩
    · obtain rfl := List.mem_singleton.mp there
      exact ok_of_value? saved
    · have listed := (FileStore.mem_names _).mpr found
      rw [names] at listed
      exact ⟨0, by simp, (Path.snapshots.inj (List.mem_singleton.mp listed)).2⟩
  · intro serde
    have ran : value? Described.listings blankWorld = some .merged ∧
        ((finalState Described.listings blankWorld).manifest.findSnapshot 3).isSome = true ∧
        Recovery.rebuildFromPacks (finalState Described.listings blankWorld).disk.files (.uuid 3)
          (Recovery.filesIn (finalState Described.listings blankWorld).disk.files (.uuid 3)) = none := by
      decide +kernel
    obtain ⟨folded, found, lost⟩ := ran
    obtain ⟨t, found⟩ := Option.isSome_iff_exists.mp found
    constructor
    · exact ⟨{ Manifest.default with snapshots := [Described.unwritten 1 100 none true] }, rfl, rfl, rfl⟩
    · exact ⟨_, t, ok_of_value? folded, found, lost⟩

end Moonclip
