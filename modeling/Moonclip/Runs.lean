import Moonclip.JsonText
import Moonclip.Linked
import Moonclip.Reopening
import Moonclip.Saves

/-! Whole runs of one process after another: whatever retention left listed loads
as the tensors its save was given. -/
namespace Moonclip
open Library.Effect Library.Files

/-- What one save was given. -/
structure Saved where
  id : Uuid
  policy : DTypePolicy
  tensors : List TensorData

/-- A store in use, and what each save it took was given. -/
structure Session where
  cfg : Config
  world : World
  saved : List Saved

/-- The process ends, and nobody counts what it wrote. -/
def World.close (w : World) : World := { w with disk := { w.disk with journal := [] } }

/-- A store for one rank. -/
structure Single (cfg : Config) : Prop where
  rank : cfg.rank = 0
  worldSize : cfg.worldSize = 1

/-- A store for one rank that casts nothing. -/
structure Plain (cfg : Config) : Prop extends Single cfg where
  saveDtype : cfg.saveDtype = .none

/-- The sessions that saves and reopenings lead to, each under a configuration that
is admitted, from a disk with nothing on it that takes no file of 2^64 bytes. -/
inductive Session.Reached [Zstd] [Xxh3] [SerdeJson] (admits : Config → Prop) : Session → Prop where
  | fresh (cfg : Config) (e : Enumeration) (w opened : World) (admitted : admits cfg)
      (empty : w.disk.files = .empty) (unused : w.disk.journal = [])
      (bounded : ∀ p body, w.disk.accepts p body = true → body.length < 2 ^ 64)
      (ran : Recovery.openStore cfg e w = .ok () opened) :
      Reached admits ⟨cfg, opened, []⟩
  | save (s : Session) (id : Uuid) (tensors : List TensorData) (context : SnapshotContext)
      (after : World) (before : Reached admits s) (new : id ∉ s.saved.map (·.id))
      (distinct : (tensors.map (·.name)).Nodup)
      (ran : Coordinator.saveSync s.cfg id tensors context s.world = .ok () after) :
      Reached admits ⟨s.cfg, after, ⟨id, s.cfg.saveDtype, tensors⟩ :: s.saved⟩
  | reopen (s : Session) (cfg : Config) (e : Enumeration) (after : World) (before : Reached admits s)
      (admitted : admits cfg) (ran : Recovery.openStore cfg e s.world.close = .ok () after) :
      Reached admits ⟨cfg, after, s.saved⟩

/-- The bytes of every tensor given to a save, before and after its cast. -/
def Session.buffers (s : Session) : Set Bytes :=
  {data | ∃ save ∈ s.saved, ∃ t ∈ save.tensors,
    t.data = data ∨ ∃ w, Tensor.workingCopy t save.policy = .ok w ∧ w.data = data}

section
variable [Zstd] [Xxh3] [SerdeJson] {admits : Config → Prop} {buffers : Set Bytes} {a a' : Archive}
  {k : Kept} {tensors : List TensorData} {files : Files} {m : Manifest} {s : Session}
  {snap : Snapshot} {save : Saved}

omit [SerdeJson] in
/-- A listed snapshot loads as the archive has it. -/
theorem Listed.load_eq (sound : ∀ id k, a id = some k → k.id = id ∧ k.Shaped a)
    (listed : Listed a files m.snapshots) (present : snap ∈ m.snapshots) :
    ∃ k, a snap.id = some k ∧ snap.unpinned = k.snapshot ∧
      Coordinator.load 0 files m snap.id = k.loads a := by
  have found : ∀ t ∈ m.snapshots, m.findSnapshot t.id = some t := by
    intro t there
    cases looked : m.findSnapshot t.id with
    | none => simpa using List.find?_eq_none.mp looked t there
    | some u =>
      have same : u.id = t.id := by simpa using List.find?_some looked
      rw [listed.distinct.eq_of_id (List.mem_of_find?_eq_some looked) there same]
  obtain ⟨k, kept, same, pack⟩ := listed.kept snap present
  refine ⟨k, kept, same, ?_⟩
  simp only [Coordinator.load, found snap present]
  refine Kept.loadRank_eq (sound _ k kept).2 (fun b there => ?_) ⟨same, pack, fun id delta => ?_⟩
  · obtain ⟨id, _, known⟩ := Option.bind_eq_some_iff.mp there
    exact (sound id b known).2
  · obtain ⟨t, there, rfl, _⟩ := listed.closed snap present id delta
    obtain ⟨b, known, alike, pack⟩ := listed.kept t there
    exact ⟨b, t, known, found t there, alike, pack⟩

/-- A snapshot as one of the saves wrote it. -/
structure Kept.From (admits : Config → Prop) (buffers : Set Bytes) (a : Archive) (save : Saved)
    (k : Kept) : Prop where
  distinct : (save.tensors.map (·.name)).Nodup
  made : ∃ base cfg pts, admits cfg ∧ cfg.saveDtype = save.policy ∧
    SavedPack base cfg save.tensors pts k ∧ ∀ b, base = some b → a b.id = some b ∧ b.Base buffers a

theorem Kept.From.extend (given : k.From admits buffers a save) (grown : a.Extends a') :
    k.From admits buffers a' save where
  distinct := given.distinct
  made := by
    obtain ⟨base, cfg, pts, admitted, policy, saved, bases⟩ := given.made
    exact ⟨base, cfg, pts, admitted, policy, saved, fun b is => ⟨grown _ b (bases b is).1,
      (bases b is).2.toSound.extend grown, (bases b is).2.root⟩⟩

/-- Every snapshot ever saved is known by what its save was given. -/
structure Session.Keeps (admits : Config → Prop) (buffers : Set Bytes) (s : Session) (a : Archive) :
    Prop where
  admitted : admits s.cfg
  held : ∃ now start, Holding buffers {id | id ∈ s.saved.map (·.id)} a (fun _ => True) now start s.world
  given : ∀ id k, a id = some k → ∃ save ∈ s.saved, save.id = id ∧ k.From admits buffers a save

omit [Zstd] [Xxh3] in
/-- An empty disk is one a store can be opened on. -/
theorem safe_empty {P : List Snapshot → Prop} (nothing : P []) : Safe a P .empty where
  left := ⟨nofun, nofun, fun _ _ => rfl⟩
  right := by
    refine ⟨{ Manifest.default with ranksWritten := ∅ }, ⟨⟨?_, nofun, nofun⟩, nofun, nofun, nofun,
      .inl ⟨rfl, rfl⟩⟩, nothing⟩
    simp [Distinct, Manifest.default]

omit [Zstd] [Xxh3] [SerdeJson] in
theorem Session.buffers_cons {cfg : Config} {w : World} {rest : List Saved} (known :
    (⟨cfg, w, save :: rest⟩ : Session).buffers ⊆ buffers) :
    (∀ t ∈ save.tensors, t.data ∈ buffers ∧
      ∀ w, Tensor.workingCopy t save.policy = .ok w → w.data ∈ buffers) ∧
    ∀ cfg w, (⟨cfg, w, rest⟩ : Session).buffers ⊆ buffers := by
  refine ⟨fun t given => ⟨?_, fun w copied => ?_⟩, fun _ _ data there => ?_⟩
  · exact known ⟨save, List.mem_cons_self, t, given, .inl rfl⟩
  · exact known ⟨save, List.mem_cons_self, t, given, .inr ⟨w, copied, rfl⟩⟩
  · obtain ⟨earlier, saved, rest⟩ := there
    exact known ⟨earlier, List.mem_cons_of_mem _ saved, rest⟩

variable [LawfulZstd] [LawfulSerdeJson]

/-- One save: what was known is known still, and the new snapshot is known by its tensors. -/
theorem Session.save_keeps {id : Uuid} {context : SnapshotContext} {after : World}
    (keeps : s.Keeps admits buffers a) (single : Single s.cfg) (new : id ∉ s.saved.map (·.id))
    (distinct : (tensors.map (·.name)).Nodup) (faithful : Set.InjOn hashHex buffers)
    (known : ∀ t ∈ tensors, ∀ w, Tensor.workingCopy t s.cfg.saveDtype = .ok w → w.data ∈ buffers)
    (ran : Coordinator.saveSync s.cfg id tensors context s.world = .ok () after) :
    ∃ k, k.id = id ∧ a id = none ∧ k.From admits buffers a ⟨id, s.cfg.saveDtype, tensors⟩ ∧
      Session.Keeps admits buffers ⟨s.cfg, after, ⟨id, s.cfg.saveDtype, tensors⟩ :: s.saved⟩ (a.add k) := by
  obtain ⟨now, start, held⟩ := keeps.held
  have savable : Savable buffers s.cfg tensors := ⟨single.rank, single.worldSize, distinct, known⟩
  obtain ⟨base, k, pts, saved, rfl, bases, held'⟩ :=
    (Coordinator.saveSync_holding savable new faithful).ok held ran
  have unknown : a k.id = none := by
    cases there : a k.id with
    | none => rfl
    | some other => exact absurd (held.ids _ other there) new
  have grown := Archive.extends_add unknown
  have given : k.From admits buffers a ⟨k.id, s.cfg.saveDtype, tensors⟩ :=
    ⟨distinct, _, _, pts, keeps.admitted, rfl, saved, bases⟩
  refine ⟨k, rfl, unknown, given, keeps.admitted, ⟨after.manifest.snapshots, start, ?_⟩,
    fun id other kept => ?_⟩
  · have taken : insert k.id {id | id ∈ s.saved.map (·.id)} ⊆
        {id | id ∈ ((⟨k.id, s.cfg.saveDtype, tensors⟩ : Saved) :: s.saved).map (·.id)} := by
      intro id there
      simpa using there
    exact (held'.mono fun _ _ => trivial).take taken
  · rcases Archive.add_eq_some kept with ⟨rfl, rfl⟩ | before
    · exact ⟨_, List.mem_cons_self, rfl, given.extend grown⟩
    · obtain ⟨save, there, same, given⟩ := keeps.given id other before
      exact ⟨save, List.mem_cons_of_mem _ there, same, given.extend grown⟩

theorem Session.reached_keeps (reached : s.Reached admits) (single : ∀ cfg, admits cfg → Single cfg)
    (faithful : Set.InjOn hashHex buffers) (known : s.buffers ⊆ buffers) :
    ∃ a, s.Keeps admits buffers a := by
  induction reached with
  | fresh cfg e w opened admitted empty unused bounded ran =>
    have sound : Archive.Sound buffers fun _ => none := nofun
    have safe : Safe (fun _ => none) (fun _ => True) w.disk.files := empty ▸ safe_empty trivial
    obtain ⟨before, now, _, _, held⟩ :=
      (Recovery.openStore_holding (single cfg admitted).rank sound nofun safe).ok ⟨bounded, rfl, unused⟩ ran
    have untaken : (∅ : Set Uuid) ⊆ {id | id ∈ ([] : List Saved).map (·.id)} := Set.empty_subset _
    exact ⟨fun _ => none, admitted, ⟨now, _, (held.mono fun _ _ => trivial).take untaken⟩, nofun⟩
  | save s id tensors context after before new distinct ran ih =>
    obtain ⟨fresh, earlier⟩ := buffers_cons known
    obtain ⟨a, keeps⟩ := ih (earlier s.cfg s.world)
    obtain ⟨k, _, _, _, keeps'⟩ := save_keeps keeps (single _ keeps.admitted) new distinct faithful
      (fun t given => (fresh t given).2) ran
    exact ⟨a.add k, keeps'⟩
  | reopen s cfg e after before admitted ran ih =>
    obtain ⟨a, keeps⟩ := ih known
    obtain ⟨now, start, held⟩ := keeps.held
    have safe : Safe a (fun _ => True) s.world.close.disk.files := held.safe
    obtain ⟨_, now', _, _, held'⟩ :=
      (Recovery.openStore_holding (single cfg admitted).rank held.sound held.ids safe).ok
        (s := s.world.close) ⟨held.bounded, rfl, rfl⟩ ran
    exact ⟨a, admitted, ⟨now', _, held'.mono fun _ _ => trivial⟩, keeps.given⟩

/-- Whatever is listed at any point of a run loads as the tensors its save was
given, and its entries carry their shapes and dtypes. -/
theorem Session.listed_loads (reached : s.Reached Plain) (faithful : Set.InjOn hashHex s.buffers) :
    ∀ snap ∈ s.world.manifest.snapshots, ∃ save ∈ s.saved, save.id = snap.id ∧
      Coordinator.load 0 s.world.disk.files s.world.manifest snap.id =
        .ok (.ofList (save.tensors.map fun t => (t.name, t.data))) ∧
      ∃ entry, snap.ranks[0]? = some entry ∧
        (entry.tensors.map (·.name)).Perm (save.tensors.map (·.name)) ∧
        ∀ t ∈ save.tensors, ∃ e ∈ entry.tensors, e.name = t.name ∧ e.shape = t.shape ∧
          e.dtype = t.dtype ∧ e.originalDtype = none := by
  intro snap present
  obtain ⟨a, keeps⟩ := reached_keeps reached (fun _ plain => plain.toSingle) faithful subset_rfl
  obtain ⟨now, start, held⟩ := keeps.held
  have sound := fun id k kept => And.imp_right Kept.Sound.toShaped (held.sound id k kept)
  obtain ⟨k, kept, same, loaded⟩ := held.listed.load_eq sound present
  obtain ⟨save, saved, id, given⟩ := keeps.given _ k kept
  obtain ⟨base, cfg, pts, plain, policy, pack, bases⟩ := given.made
  have known : ∀ t ∈ save.tensors, t.data ∈ s.buffers := fun t given => ⟨save, saved, t, given, .inl rfl⟩
  have content := pack.given given.distinct plain.saveDtype faithful known bases
    (held.sound _ k kept).2.readable
  have shaped := (sound _ k kept).2
  have alike := Snapshot.alike_of_unpinned (same.trans (Snapshot.unpinned_of shaped.unpinned).symm)
  exact ⟨save, saved, id, loaded.trans content.1, k.entry, alike.ranks ▸ shaped.rankEntry, pack.names,
    content.2⟩

end

/-- A store of one rank, as it is set up when nothing is asked for. -/
def plainConfig (compression : CompressionAlgo) : Config where
  worldSize := 1
  rank := 0
  compression := compression
  retention := .default
  lineage := .default
  deltaMaxRatio := 0.8
  saveDtype := .none
  keepBaseInMemory := false
  merger := none

/-- A disk with nothing on it. -/
def blankWorld : World where
  disk := ⟨.empty, [], 0, fun _ body => decide (body.length < 2 ^ 64), fun _ => true⟩
  manifest := .default
  retainedBase := none
  inFlight := .default

def inOrder : Enumeration := ⟨fun dirs => dirs, fun _ => .refl _, fun entries => entries, fun _ => .refl _⟩

namespace Lone

def byteTensor : TensorData := ⟨"b", [2], "u8", [1, 2]⟩

def byteEntry : TensorEntry where
  name := "b"
  shape := [2]
  dtype := "u8"
  originalDtype := none
  quantScale := none
  storage := .full
  aliasOf := none
  filename := none
  offset := 32
  compressedSize := 2
  rawSize := 2
  hashRaw := @hashHex Linked.xxh3 [1, 2]
  hashCompressed := some (@hashHex Linked.xxh3 [1, 2])
  shuffled := false

def rankEntry : RankEntry := Coordinator.rankEntryOf 0 (packPath 7 0) [byteEntry]

def context : SnapshotContext := ⟨100, 5, ∅⟩

def snapshot : Snapshot := Coordinator.snapshotOf (plainConfig .none) 7 none context rankEntry

def manifest : Manifest := { Manifest.default with snapshots := [snapshot], ranksWritten := {7} }

end Lone

namespace Pair

def weight : TensorData := ⟨"w", [2], "u8", [1, 2]⟩

def bias : TensorData := ⟨"b", [1], "u8", [3]⟩

def changed : TensorData := { bias with data := [4] }

/-- At most two snapshots in all. -/
def capped (compression : CompressionAlgo) : Config :=
  { plainConfig compression with retention := { RetentionPolicy.default with maxTotalSnapshots := some 2 } }

def context (step : Nat) : SnapshotContext := ⟨step, step, ∅⟩

def bodyEntry (t : TensorData) (offset : Nat) : TensorEntry where
  name := t.name
  shape := t.shape
  dtype := t.dtype
  originalDtype := none
  quantScale := none
  storage := .full
  aliasOf := none
  filename := none
  offset := offset
  compressedSize := t.data.length
  rawSize := t.data.length
  hashRaw := @hashHex Linked.xxh3 t.data
  hashCompressed := some (@hashHex Linked.xxh3 t.data)
  shuffled := false

def skippedEntry (t : TensorData) : TensorEntry :=
  { bodyEntry t 0 with storage := .skipped, compressedSize := 0, hashCompressed := none }

def full : Snapshot :=
  Coordinator.snapshotOf (capped .none) 7 none (context 100)
    (Coordinator.rankEntryOf 0 (packPath 7 0) [bodyEntry weight 32, bodyEntry bias 34])

/-- The one tensor has changed, the other has not. -/
def delta (id : Uuid) (step : Nat) : Snapshot :=
  Coordinator.snapshotOf (capped .none) id (some full) (context step)
    (Coordinator.rankEntryOf 0 (packPath id 0) [skippedEntry weight, bodyEntry changed 32])

def listing (snapshots : List Snapshot) : Index :=
  ManifestIo.indexOf { Manifest.default with
    snapshots := snapshots, retention := (capped .none).retention, ranksWritten := {7, 8, 9} }

def descriptors (s : Snapshot) : List PackDescriptor :=
  (s.ranks.toList.map (·.2)).map fun entry =>
    ⟨s.id, s.step, s.createdAt, s.baseSnapshotId, s.metadata, s.compression, 1, entry⟩

def snapshots : List Snapshot := [full, delta 8 200, delta 9 300]

abbrev serde : SerdeJson :=
  JsonText.serde (fun _ => []) [listing [full], listing [full, delta 8 200], listing [full, delta 9 300]]
    (snapshots.map fun s => ⟨s.id, s.ranks⟩) (snapshots.flatMap descriptors) []

theorem lawful : @LawfulSerdeJson serde :=
  JsonText.serde_lawful _ (by decide +kernel) (by decide +kernel) (by decide +kernel) (by simp)

def saves : List Saved :=
  [⟨9, .none, [weight, changed]⟩, ⟨8, .none, [weight, changed]⟩, ⟨7, .none, [weight, bias]⟩]

/-- Three saves, the second of which the third turns out, and another compression level. -/
def story : Act (List Uuid) :=
  let _ := Linked.zstd
  let _ := Linked.xxh3
  let _ := serde
  do
    Recovery.openStore (capped .none) inOrder
    Coordinator.saveSync (capped .none) 7 [weight, bias] (context 100)
    Coordinator.saveSync (capped .none) 8 [weight, changed] (context 200)
    Coordinator.saveSync (capped .none) 9 [weight, changed] (context 300)
    modify World.close
    Recovery.openStore (capped (.zstd 3)) inOrder
    return (← get).manifest.snapshots.map (·.id)

def reopened : World := finalState story blankWorld

theorem told : value? story blankWorld = some [7, 9] := by decide +kernel

theorem reached :
    let _ := Linked.zstd
    let _ := Linked.xxh3
    let _ := serde
    reopened.manifest.snapshots.map (·.id) = [7, 9] ∧
      Session.Reached Plain ⟨capped (.zstd 3), reopened, saves⟩ := by
  intro zstd xxh3 serde
  have told := ok_of_value? told
  change story blankWorld = .ok [7, 9] reopened at told
  simp only [story, bind_eq_ok, modify_eq_ok, get_eq_ok, pure_eq_ok] at told
  obtain ⟨_, opened, opening, _, first, saving, _, second, savingAgain, _, third, saved, _, _,
    rfl, _, _, reopening,
    _, _, ⟨rfl, rfl⟩, listed, rfl⟩ := told
  have start : Session.Reached Plain ⟨capped .none, opened, []⟩ :=
    .fresh _ inOrder blankWorld _ ⟨⟨rfl, rfl⟩, rfl⟩ rfl rfl (fun p body => of_decide_eq_true) opening
  have full : Session.Reached Plain ⟨capped .none, first, saves.drop 2⟩ :=
    .save _ 7 [weight, bias] (context 100) _ start (by simp) (by decide) saving
  have delta : Session.Reached Plain ⟨capped .none, second, saves.drop 1⟩ :=
    .save _ 8 [weight, changed] (context 200) _ full (by simp [saves]) (by decide) savingAgain
  have another : Session.Reached Plain ⟨capped .none, third, saves⟩ :=
    .save _ 9 [weight, changed] (context 300) _ delta (by simp [saves]) (by decide) saved
  exact ⟨listed, .reopen _ _ inOrder _ another ⟨⟨rfl, rfl⟩, rfl⟩ reopening⟩

def given : List Bytes := [[1, 2], [3], [4]]

theorem buffers {cfg : Config} {w : World} : (⟨cfg, w, saves⟩ : Session).buffers ⊆ {data | data ∈ given} := by
  have plain : ∀ save ∈ saves, save.policy = .none ∧ ∀ t ∈ save.tensors, t.data ∈ given := by decide
  rintro data ⟨save, saved, t, there, same | ⟨w, copied, same⟩⟩
  · exact same ▸ (plain save saved).2 t there
  · rw [(plain save saved).1, Tensor.workingCopy_none] at copied
    obtain rfl := Except.ok.inj copied
    exact same ▸ (plain save saved).2 t there

theorem faithful : Set.InjOn (@hashHex Linked.xxh3) {data | data ∈ given} := by
  have apart : (given.map (@hashHex Linked.xxh3)).Nodup := by decide +kernel
  exact fun x there y also same => List.inj_on_of_nodup_map apart there also same

end Pair

/-- Of three saves the third turns the second out; the tensor it only records as unchanged
is read from the first. -/
theorem Session.listed_loads_pair :
    let _ := Linked.zstd
    let _ := Linked.xxh3
    let _ := Pair.serde
    Pair.reopened.manifest.snapshots.map (·.id) = [7, 9] ∧
      Coordinator.load 0 Pair.reopened.disk.files Pair.reopened.manifest 7 =
        .ok (.ofList [("w", ([1, 2] : Bytes)), ("b", [3])]) ∧
      Coordinator.load 0 Pair.reopened.disk.files Pair.reopened.manifest 9 =
        .ok (.ofList [("w", ([1, 2] : Bytes)), ("b", [4])]) := by
  intro zstd xxh3 serde
  have := Linked.zstd_lawful
  have := Pair.lawful
  obtain ⟨listed, reached⟩ := Pair.reached
  have loads := Session.listed_loads reached (Pair.faithful.mono Pair.buffers)
  have only : (Pair.saves.map (·.id)).Nodup := by decide
  have reads : ∀ save ∈ Pair.saves, save.id ∈ [7, 9] →
      Coordinator.load 0 Pair.reopened.disk.files Pair.reopened.manifest save.id =
        .ok (.ofList (save.tensors.map fun t => (t.name, t.data))) := by
    intro save given kept
    obtain ⟨snap, present, named⟩ := List.mem_map.mp (listed ▸ kept)
    obtain ⟨other, given', same, loaded, _⟩ := loads snap present
    obtain rfl := List.inj_on_of_nodup_map only given' given (same.trans named)
    rwa [← same] at loaded
  refine ⟨listed, ?_, ?_⟩
  · exact reads ⟨7, .none, [Pair.weight, Pair.bias]⟩ (by simp [Pair.saves]) (by simp)
  · exact reads ⟨9, .none, [Pair.weight, Pair.changed]⟩ (by simp [Pair.saves]) (by simp)

end Moonclip
