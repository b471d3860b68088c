import Moonclip.Readmission
import Moonclip.Remote
import Moonclip.RetentionRuns
import Moonclip.Sheets
import Moonclip.Threads

/-! A store whose every file was put there by a call that had its entries in order. What
is read back from such files is in order too, so the list in memory stays so. -/
namespace Moonclip
open Library.Codec Library.Effect Library.Files

/-- A snapshot as an index may hold it: its own ranks in order, or in the file that is its own. -/
structure Head.InOrder (h : Head) : Prop where
  inline : ∀ ranks, h.ranks = some ranks → Ledger ranks
  ranksIn : ∀ p, h.ranksIn = some p → p = ranksPath h.id

section
variable [SerdeJson]

/-- What can be read from a file of that name is in order. -/
def InOrder : Path → Bytes → Prop
  | .manifestJson, body => ∀ index, SerdeJson.index.fromSlice (trimZeros body) = .ok index →
      ∀ h ∈ index.snapshots, h.InOrder
  | .snapshots _ .ranksJson, body => ∀ file, SerdeJson.ranks.fromSlice (trimZeros body) = .ok file →
      Ledger file.ranks
  | .snapshots _ _, body => ∀ offset length descriptor,
      Pack.decodeHeader (body.take Pack.headerLen) = some (offset, length) →
      SerdeJson.descriptor.fromSlice ((body.drop offset).take length) = .ok descriptor →
        Sheet descriptor.rank.tensors
  | _, _ => True

/-- Every file that was ever put on the disk is in order. What is there now was put there. -/
structure Disk.Tidy (disk : Disk) : Prop where
  bounded : ∀ p body, disk.accepts p body = true → body.length < 2 ^ 64
  wrote : ∀ p body, .put p body ∈ disk.journal → InOrder p body
  there : ∀ p body, disk.files.find? p = some body → .put p body ∈ disk.journal

/-- And so is the list in memory. -/
structure Tidy (w : World) : Prop where
  disk : w.disk.Tidy
  lists : ∀ s ∈ w.manifest.snapshots, Ledger s.ranks

section
variable {disk : Disk} {w : World} {m : Manifest} {p : Path} {body : Bytes}

theorem Disk.Tidy.file (tidy : disk.Tidy) (found : disk.files.find? p = some body) : InOrder p body :=
  tidy.wrote p body (tidy.there p body found)

theorem Disk.Tidy.put (tidy : disk.Tidy) (order : InOrder p body) : (disk.change (.put p body)).Tidy where
  bounded := tidy.bounded
  wrote q content written := by
    rcases List.mem_append.mp written with before | new
    · exact tidy.wrote q content before
    · simp only [List.mem_singleton, Change.put.injEq] at new
      obtain ⟨rfl, rfl⟩ := new
      exact order
  there q content found := by
    simp only [Disk.files_change, Change.apply, FileStore.find?_put] at found
    apply List.mem_append.mpr
    split at found
    · rename_i same
      obtain rfl := Option.some.inj found
      exact .inr (by simp [same])
    · exact .inl (tidy.there q content found)

theorem Disk.Tidy.delete (tidy : disk.Tidy) : (disk.change (.delete p)).Tidy where
  bounded := tidy.bounded
  wrote q content written := tidy.wrote q content (by simpa using written)
  there q content found := List.mem_append_left _ (tidy.there q content (FileStore.find?_of_delete found))

theorem Tidy.relist (tidy : Tidy w) (lists : ∀ s ∈ m.snapshots, Ledger s.ranks) :
    Tidy { w with manifest := m } :=
  ⟨tidy.disk, lists⟩

theorem Tidy.flight (tidy : Tidy w) (f : InFlight) : Tidy { w with inFlight := f } := { tidy with }

theorem Tidy.put (tidy : Tidy w) (order : InOrder p body) :
    Tidy { w with disk := w.disk.change (.put p body) } :=
  ⟨tidy.disk.put order, tidy.lists⟩

end

/-- An action that leaves a tidy store tidy, however it ends. -/
def Tidies {α : Type} (act : Act α) : Prop := Triple Tidy act (fun _ => Tidy) fun _ => Tidy

section
variable {w : World} {m : Manifest} {page : Nat} {text : Bytes}

/-- A description at the end of a pack is read back as it was written. -/
theorem inOrder_pack [LawfulSerdeJson] {id : Uuid} {rank : Nat} {entry : RankEntry} {parts : List Bytes}
    (sheet : Sheet entry.tensors) (packs : Coordinator.Packs entry parts)
    (fits : (pad page parts.flatten).length < 2 ^ 64) :
      InOrder (packPath id rank) (pad page parts.flatten) := by
  obtain ⟨descriptor, blobs, made, rfl⟩ := packs
  obtain ⟨encoded, offset, written, _, decoded, slice⟩ := Coordinator.pack_reads made fits
  intro offset' length read header text
  rw [decoded] at header
  obtain ⟨rfl, rfl⟩ := Prod.mk.inj (Option.some.inj header)
  rw [slice, LawfulSerdeJson.descriptor.roundTrip written] at text
  obtain rfl := Except.ok.inj text
  exact sheet

theorem inOrder_ranks [LawfulSerdeJson] {id : Uuid} {ranks : RankMap} (ledger : Ledger ranks)
    (encoded : SerdeJson.ranks.toVec ⟨id, ranks⟩ = .ok text) : InOrder (ranksPath id) (pad page text) := by
  intro file read
  rw [trimZeros_pad (LawfulSerdeJson.ranks.closed encoded), LawfulSerdeJson.ranks.roundTrip encoded] at read
  obtain rfl := Except.ok.inj read
  exact ledger

theorem inOrder_index [LawfulSerdeJson] (lists : ∀ s ∈ m.snapshots, Ledger s.ranks)
    (encoded : SerdeJson.index.toVec (ManifestIo.indexOf m) = .ok text) :
    InOrder .manifestJson (pad page text) := by
  intro index read h named
  rw [trimZeros_pad (LawfulSerdeJson.index.closed encoded), LawfulSerdeJson.index.roundTrip encoded] at read
  obtain rfl := Except.ok.inj read
  obtain ⟨s, listed, rfl⟩ := List.mem_map.mp named
  constructor
  · intro ranks inline
    obtain ⟨_, rfl⟩ : s.id ∉ m.ranksWritten ∧ s.ranks = ranks := by simpa [ManifestIo.headOf] using inline
    exact lists s listed
  · intro p out
    obtain ⟨_, rfl⟩ : s.id ∈ m.ranksWritten ∧ ranksPath s.id = p := by simpa [ManifestIo.headOf] using out
    rfl

/-- What a pack of a tidy disk describes is in order. -/
theorem Tidy.sheet_of_pack {p : Path} {body : Bytes} {offset length : Nat}
    {d : PackDescriptor} (tidy : Tidy w)
    (pack : Recovery.isPack p = true) (found : w.disk.files.find? p = some body)
    (decoded : Pack.decodeHeader (body.take Pack.headerLen) = some (offset, length))
    (read : SerdeJson.descriptor.fromSlice ((body.drop offset).take length) = .ok d) :
      Sheet d.rank.tensors := by
  have order := tidy.disk.file found
  cases p with
  | snapshots dir file =>
    cases file with
    | ranksJson => simp [Recovery.isPack, FileName.isPack] at pack
    | rankPack r => exact order offset length d decoded read
    | other name => exact order offset length d decoded read
  | _ => simp [Recovery.isPack] at pack

/-- A rank's entry is read from its pack in order. -/
theorem sheet_shardOf {id : Uuid} {p : Path} {entry : RankEntry} (tidy : Tidy w)
    (pack : Recovery.isPack p = true)
    (read : Coordinator.shardOf w.disk.files id p = .ok entry) : Sheet entry.tensors := by
  simp only [Coordinator.shardOf, Library.Outcome.bind_eq_ok] at read
  obtain ⟨header, head, read⟩ := read
  obtain ⟨body, found, rfl⟩ := Storage.getRange_eq_ok head
  split at read
  · simp at read
  · rename_i offset length decoded
    simp only [Library.Outcome.bind_eq_ok] at read
    obtain ⟨encoded, cut, read⟩ := read
    obtain ⟨body', again, rfl⟩ := Storage.getRange_eq_ok cut
    obtain rfl : body = body' := Option.some.inj (found.symm.trans again)
    split at read
    · simp at read
    · simp only [Library.Outcome.bind_eq_ok, Library.Outcome.mapError_eq_ok] at read
      obtain ⟨descriptor, text, read⟩ := read
      split at read
      · simp at read
      · obtain rfl := Except.ok.inj read
        exact tidy.sheet_of_pack pack found (by simpa using decoded) text

/-- And so is the same description as an opening store reads it. -/
theorem sheet_descriptorOf {dir : Directory} {p : Path} {d : PackDescriptor} (tidy : Tidy w)
    (pack : Recovery.isPack p = true) (read : Recovery.descriptorOf w.disk.files dir p = some d) :
    Sheet d.rank.tensors := by
  simp only [Recovery.descriptorOf, Option.bind_eq_bind, Option.bind_eq_some_iff,
    Library.Outcome.toOption_eq_some] at read
  obtain ⟨header, head, ⟨offset, length⟩, decoded, encoded, cut, read⟩ := read
  obtain ⟨body, found, rfl⟩ := Storage.getRange_eq_ok head
  obtain ⟨body', again, rfl⟩ := Storage.getRange_eq_ok cut
  obtain rfl : body = body' := Option.some.inj (found.symm.trans again)
  split at read
  · contradiction
  · obtain ⟨d', text, read⟩ := Option.bind_eq_some_iff.mp read
    split at read
    · obtain rfl := Option.some.inj read
      exact tidy.sheet_of_pack pack found (by simpa using decoded) (Library.Outcome.toOption_eq_some.mp text)
    · contradiction

theorem ledger_collected {id : Uuid} {ranks : RankMap} (tidy : Tidy w)
    (collected : Coordinator.collectRankShards w.disk.files id = .ok ranks) : Ledger ranks := by
  simp only [Coordinator.collectRankShards, Library.Outcome.map_eq_ok,
    Library.Outcome.mapM_eq_ok] at collected
  obtain ⟨shards, read, rfl⟩ := collected
  apply ledger_ofList
  rintro e listed
  obtain ⟨shard, there, rfl⟩ := List.mem_map.mp listed
  obtain ⟨p, named, from_⟩ := Library.Outcome.exists_item read there
  exact sheet_shardOf tidy (List.mem_filter.mp named).2 from_

theorem ledger_candidateOf [Xxh3] {dir : Directory} {s : Snapshot} (tidy : Tidy w)
    (rebuilt : Recovery.candidateOf w.disk.files dir = some s) : Ledger s.ranks := by
  obtain ⟨rebuilt, _⟩ := Option.filter_eq_some_iff.mp rebuilt
  obtain ⟨descriptors, packs, d, rest, _, _, rfl⟩ := Recovery.rebuildFromPacks_eq_some.mp rebuilt
  apply ledger_ofList
  rintro e listed
  obtain ⟨d, there, rfl⟩ := List.mem_map.mp listed
  obtain ⟨p, named, described⟩ := Library.Outcome.exists_item packs there
  exact sheet_descriptorOf tidy (List.mem_filter.mp named).2 described

theorem ledger_readRanks {id : Uuid} {ranks : RankMap} (tidy : Tidy w)
    (read : ManifestIo.readRanks w.disk.files (ranksPath id) id = some ranks) : Ledger ranks := by
  simp only [ManifestIo.readRanks, Option.bind_eq_bind, Option.bind_eq_some_iff,
    Library.Outcome.toOption_eq_some] at read
  obtain ⟨body, found, file, text, read⟩ := read
  split at read
  · obtain rfl := Option.some.inj read
    exact tidy.disk.file (Storage.get_eq_ok.mp found) file text
  · contradiction

namespace ManifestIo

/-- Heads in order are read as snapshots in order, whoever lends the ranks. -/
theorem ledger_readHeads {held : Uuid → Option RankMap} {heads : List Head} (tidy : Tidy w)
    (order : ∀ h ∈ heads, h.InOrder) (lent : ∀ id ranks, held id = some ranks → Ledger ranks) :
    ∀ s ∈ (readHeads w.disk.files held heads).snapshots, Ledger s.ranks := by
  induction heads generalizing held with
  | nil => simp [readHeads]
  | cons h rest ih =>
    have first := order h (by simp)
    have later := fun {held} => @ih held fun g there => order g (by simp [there])
    have without : ∀ id ranks, Function.update held h.id none id = some ranks → Ledger ranks := by
      intro id ranks given
      by_cases same : id = h.id
      · simp [same] at given
      · exact lent id ranks (by simpa [same] using given)
    unfold readHeads
    split
    · rename_i ranks inline
      intro s listed
      rcases List.mem_cons.mp listed with rfl | there
      · exact first.inline ranks inline
      · exact later lent s there
    · rename_i p _ out
      extract_lets others
      obtain rfl := first.ranksIn p out
      split
      · rename_i ranks known
        intro s listed
        rcases List.mem_cons.mp listed with rfl | there
        · rcases Option.or_eq_some_iff.mp known with given | ⟨_, read⟩
          · exact lent _ _ given
          · exact ledger_readRanks tidy read
        · exact later without s there
      · exact later without
    · intro s listed
      rcases List.mem_cons.mp listed with rfl | there
      · exact Ledger.empty
      · exact later lent s there

omit [SerdeJson] in
theorem ledger_heldRanks {m : Manifest} (lists : ∀ s ∈ m.snapshots, Ledger s.ranks) :
    ∀ id ranks, heldRanks m id = some ranks → Ledger ranks := by
  unfold heldRanks
  suffices ∀ (l : List Snapshot) (held : Uuid → Option RankMap), (∀ s ∈ l, Ledger s.ranks) →
      (∀ id ranks, held id = some ranks → Ledger ranks) →
        ∀ id ranks, l.foldl (fun (held : Uuid → Option RankMap) s =>
        if s.id ∈ m.ranksWritten then Function.update held s.id (some s.ranks) else held) held
          id = some ranks →
          Ledger ranks from this m.snapshots _ lists (by simp)
  intro l
  induction l with
  | nil => exact fun held _ lent => lent
  | cons s rest ih =>
    intro held lists lent
    apply ih _ fun t there => lists t (by simp [there])
    intro id ranks given
    dsimp only at given
    split at given
    · by_cases same : id = s.id
      · obtain rfl : s.ranks = ranks := by simpa [same] using given
        exact lists s (by simp)
      · exact lent id ranks (by simpa [same] using given)
    · exact lent id ranks given

/-- A manifest read from a tidy disk is in order, with or without the copy in memory. -/
theorem ledger_load {previous : Option Manifest} (tidy : Tidy w)
    (before : ∀ m, previous = some m → ∀ s ∈ m.snapshots, Ledger s.ranks)
    (read : load w.disk.files previous = .ok (some m)) : ∀ s ∈ m.snapshots, Ledger s.ranks := by
  unfold load at read
  cases found : w.disk.files.find? .manifestJson with
  | none => simp [found] at read
  | some body =>
    simp only [found, Library.Outcome.bind_eq_ok, Library.Outcome.mapError_eq_ok] at read
    obtain ⟨index, text, read⟩ := read
    have whole : ∀ held : Uuid → Option RankMap, (∀ id ranks, held id = some ranks → Ledger ranks) →
        ∀ s ∈ if (readHeads w.disk.files held index.snapshots).unreadable.isEmpty then
            (readHeads w.disk.files held index.snapshots).snapshots
          else (readHeads w.disk.files held index.snapshots).snapshots.filter fun s =>
            s.baseSnapshotId.all (!(readHeads w.disk.files held index.snapshots).unreadable.contains ·),
          Ledger s.ranks := by
      intro held lent s listed
      have all := ledger_readHeads tidy (tidy.disk.file found index text) lent
      split at listed
      · exact all s listed
      · exact all s (List.mem_of_mem_filter listed)
    cases previous with
    | none =>
      obtain rfl := Option.some.inj (Except.ok.inj read)
      exact whole _ (by simp)
    | some previous =>
      obtain rfl := Option.some.inj (Except.ok.inj read)
      exact whole _ (ledger_heldRanks (before previous rfl))

end ManifestIo

end

section
variable {m : Manifest}

theorem tidy_of_read {s w : World} (read : s = w ∧ Tidy w) : Tidy s := read.1 ▸ read.2

theorem put_tidies {p : Path} {data : Bytes} {pre : World → Prop} (tidy : ∀ w, pre w → Tidy w)
    (order : ∀ w, pre w → (pad w.disk.pageSize data).length < 2 ^ 64 → InOrder p (pad w.disk.pageSize data)) :
    Triple pre (Storage.put p data) (fun _ => Tidy) fun _ => Tidy := by
  refine Storage.put_spec (fun w start taken => ?_) fun w _ start => tidy w start
  exact (tidy w start).put (order w start ((tidy w start).disk.bounded _ _ taken))

theorem delete_tidies {p : Path} : Tidies (Storage.delete p) :=
  Storage.delete_spec (fun _ tidy => tidy) fun _ tidy => ⟨tidy.disk.delete, tidy.lists⟩

namespace ManifestIo

theorem writeRanks_tidies [LawfulSerdeJson] {s : Snapshot} (ledger : Ledger s.ranks) :
    Tidies (writeRanks s) := by
  unfold writeRanks
  cases encoded : SerdeJson.ranks.toVec ⟨s.id, s.ranks⟩ with
  | error e => exact Triple.returning_error rfl fun _ tidy => tidy
  | ok text =>
    exact Triple.returning_ok rfl (put_tidies (fun _ tidy => tidy) fun w _ _ => inOrder_ranks ledger encoded)

theorem persist_tidies [LawfulSerdeJson] : Tidies persist := by
  apply Triple.get_bind
  intro w
  apply Triple.learn (P := ∀ s ∈ w.manifest.snapshots, Ledger s.ranks)
  · rintro s ⟨rfl, tidy⟩
    exact tidy.lists
  · intro lists
    apply Triple.bind fun _ => Tidy
    · apply Triple.weaken Tidy _ (fun _ => tidy_of_read) (fun _ _ tidy => tidy) fun _ _ tidy => tidy
      apply Triple.forM
      intro s listed
      exact writeRanks_tidies (lists s (List.mem_of_mem_filter listed))
    · intro _
      apply Triple.modify_bind Tidy fun w tidy => tidy.relist tidy.lists
      intro _
      apply Triple.get_bind
      intro w₁
      dsimp only
      cases encoded : SerdeJson.index.toVec (indexOf w₁.manifest) with
      | error e => exact Triple.returning_error rfl fun _ => tidy_of_read
      | ok text =>
        apply Triple.returning_ok rfl
        apply put_tidies fun _ => tidy_of_read
        rintro w ⟨rfl, tidy⟩ _
        exact inOrder_index tidy.lists encoded

end ManifestIo

namespace Coordinator

theorem push_tidies {s : Snapshot} (ledger : Ledger s.ranks) : Tidies (push s) := by
  refine Triple.modified fun w tidy => tidy.relist fun t listed => ?_
  rcases List.mem_append.mp listed with before | new
  · exact tidy.lists t before
  · obtain rfl := List.mem_singleton.mp new
    exact ledger

theorem applyRetention_tidies [LawfulSerdeJson] : Tidies applyRetention := by
  refine Triple.get_keep fun w => Triple.returning_keep (fun steps => ?_) fun _ _ tidy => tidy
  apply Triple.get_bind
  intro w₁
  apply Triple.modify_bind Tidy
  · rintro w ⟨rfl, tidy⟩
    apply tidy.relist
    intro s left
    have listed := Retention.retain_sublist.subset left
    obtain ⟨flag, flagged⟩ := Manifest.syncPins_eq_map w.manifest steps
    rw [flagged] at listed
    obtain ⟨t, there, rfl⟩ := List.mem_map.mp listed
    exact tidy.lists t there
  · intro _
    exact Triple.bind _ ManifestIo.persist_tidies fun _ => Triple.pure fun _ tidy => tidy

theorem writePins_tidies {steps : List Nat} : Tidies (writePins steps) :=
  Triple.returning_keep (fun _ => put_tidies (fun _ tidy => tidy) fun _ _ _ => trivial) fun _ _ tidy => tidy

theorem setPinned_tidies [LawfulSerdeJson] {step : Nat} {pinned : Bool} : Tidies (setPinned step pinned) := by
  apply Triple.get_bind
  intro w
  extract_lets m
  apply Triple.learn (P := ∀ s ∈ m.snapshots, Ledger s.ranks)
  · rintro s ⟨rfl, tidy⟩
    exact tidy.lists
  · intro lists
    split
    · exact Triple.pure fun _ => tidy_of_read
    · rename_i target _
      extract_lets flagged rest
      have record : Tidies (rest ⟨⟩) := by
        refine Triple.get_keep fun w => Triple.returning_keep (fun recorded => ?_) fun _ _ tidy => tidy
        exact Triple.bind _ writePins_tidies fun _ => Triple.pure fun _ tidy => tidy
      apply Triple.modify_bind Tidy
      · rintro w' ⟨rfl, tidy⟩
        apply tidy.relist
        intro s listed
        obtain ⟨t, there, rfl⟩ := List.mem_map.mp listed
        split <;> exact lists t there
      · intro _
        split
        · exact Triple.bind _ ManifestIo.persist_tidies fun _ => record
        · exact record

theorem reloadManifest_tidies : Tidies reloadManifest := by
  apply Triple.get_bind
  intro w
  apply Triple.bind fun m s => Tidy s ∧ ∀ t ∈ m.snapshots, Ledger t.ranks
  · apply Triple.returning
    · rintro m s read ⟨rfl, tidy⟩
      refine ⟨tidy, ?_⟩
      simp only [reloaded, Library.Outcome.map_eq_ok] at read
      obtain ⟨found, read, rfl⟩ := read
      cases found with
      | none => exact tidy.lists
      | some m => exact ManifestIo.ledger_load tidy (fun m same => Option.some.inj same ▸ tidy.lists) read
    · exact fun _ _ _ => tidy_of_read
  · exact fun m => Triple.modified fun s start => start.1.relist start.2

theorem listUnfinalized_tidies [LawfulSerdeJson] {cfg : Config} {snapId : Uuid} {base : Option Snapshot}
    {context : SnapshotContext} : Tidies (listUnfinalized cfg snapId base context) :=
  Triple.bind _ (push_tidies Ledger.empty) fun _ => ManifestIo.persist_tidies

theorem listSaved_tidies [LawfulSerdeJson] (cfg : Config) (snapId : Uuid) (base : Option Snapshot)
    (context : SnapshotContext) {entry : RankEntry} (sheet : Sheet entry.tensors) :
    Tidies (listSaved cfg snapId base context entry) := by
  apply Triple.bind _ (push_tidies _) fun _ => applyRetention_tidies
  apply ledger_ofList
  rintro e listed
  obtain rfl := List.mem_singleton.mp listed
  exact sheet

theorem listFinalized_tidies [LawfulSerdeJson] (cfg : Config) (snapId : Uuid) {shards : RankMap}
    (ledger : Ledger shards) :
    Tidies (listFinalized cfg snapId shards) := by
  apply Triple.get_bind
  intro w
  apply Triple.bind fun m s => Tidy s ∧ ∀ t ∈ m.snapshots, Ledger t.ranks
  · apply Triple.returning
    · rintro m s made ⟨rfl, tidy⟩
      refine ⟨tidy, fun t listed => ?_⟩
      obtain ⟨_, before, u, after, split, _, _, rfl⟩ := assemble_eq_ok made
      have earlier : ∀ v ∈ before ++ u :: after, Ledger v.ranks := split ▸ tidy.lists
      rcases List.mem_append.mp listed with there | there
      · exact earlier t (by simp [there])
      · rcases List.mem_cons.mp there with rfl | there
        · exact ledger
        · exact earlier t (by simp [there])
    · exact fun _ _ _ => tidy_of_read
  · exact fun m => Triple.modify_bind Tidy (fun s start => start.1.relist start.2) fun _ =>
      applyRetention_tidies

section
variable [Zstd] [Xxh3] [LawfulSerdeJson] {cfg : Config} {snapId : Uuid} {base : Option Snapshot}
  {tensors : List TensorData} {context : SnapshotContext}

/-- A rank's pack goes down with its entries in order, whatever is listed. -/
theorem saveRankTensors_sheet {Q : Manifest → Prop} (distinct : (tensors.map (·.name)).Nodup) :
    Triple (fun w => w.disk.Tidy ∧ Q w.manifest) (saveRankTensors cfg snapId base tensors context)
      (fun entry w => (w.disk.Tidy ∧ Q w.manifest) ∧ Sheet entry.tensors) fun _ w => w.disk.Tidy ∧
        Q w.manifest := by
  rintro w ⟨tidy, list⟩
  refine Triple.weaken (fun s => s = w) saveRankTensors_spec (fun s (same : s = w) => same) ?_ ?_ w rfl
  · rintro entry s ⟨taken, parts, made, disk, same, _⟩
    obtain ⟨sheet, packs⟩ := sheet_packOfSave distinct made
    simp only [packWritten, made] at taken
    rw [disk, same]
    exact ⟨⟨tidy.put (inOrder_pack sheet packs (tidy.bounded _ _ taken)), list⟩, sheet⟩
  · rintro e s ⟨_, disk, same, _⟩
    rw [disk, same]
    exact ⟨tidy, list⟩

theorem saveRankTensors_tidies (cfg : Config) (snapId : Uuid) (base : Option Snapshot)
    (context : SnapshotContext)
    (distinct : (tensors.map (·.name)).Nodup) :
    Triple Tidy (saveRankTensors cfg snapId base tensors context)
      (fun entry w => Tidy w ∧ Sheet entry.tensors)
      fun _ => Tidy :=
  Triple.weaken _ (saveRankTensors_sheet (Q := fun m => ∀ s ∈ m.snapshots, Ledger s.ranks) distinct)
    (fun _ tidy => ⟨tidy.disk, tidy.lists⟩) (fun _ _ left => ⟨⟨left.1.1, left.1.2⟩, left.2⟩)
    fun _ _ left => ⟨left.1, left.2⟩

/-- A rank in a process of its own leaves the disk in order, whatever it remembers. -/
theorem saveRank_tidies (cfg : Config) (snapId : Uuid) (distinct : (tensors.map (·.name)).Nodup) :
    Triple (fun w => w.disk.Tidy) (saveRank cfg snapId tensors) (fun _ w => w.disk.Tidy) fun _ w =>
      w.disk.Tidy := by
  apply Triple.bind fun _ w => w.disk.Tidy
  · refine Triple.get_keep fun w => Triple.returning_keep (fun m => ?_) fun _ _ tidy => tidy
    exact Triple.modified fun _ tidy => tidy
  · intro _
    apply Triple.get_keep
    intro w
    extract_lets m
    split
    · exact Triple.throw fun _ tidy => tidy
    · extract_lets base pins
      apply Triple.bind fun _ w => w.disk.Tidy
      · apply Triple.bracket
        · exact Triple.weaken _ (saveRankTensors_sheet (Q := fun _ => True) distinct)
            (fun _ tidy => ⟨tidy, trivial⟩)
            (fun _ _ left => left.1.1) fun _ _ left => left.1
        · exact fun w tidy => tidy
        · exact fun _ w tidy => tidy
        · exact fun _ w tidy => tidy
      · exact fun _ => Triple.pure fun _ tidy => tidy

end

end Coordinator

namespace Merger

omit [SerdeJson] in
/-- The group a full merge folds is listed. -/
theorem fullPlan_group {m : Manifest} {base : Snapshot} {deltas : List Snapshot}
    (planned : fullPlan m = .ok (.fold base deltas)) :
    base ∈ m.snapshots ∧ ∀ d ∈ deltas, d ∈ m.snapshots := by
  unfold fullPlan at planned
  split at planned
  · contradiction
  · rename_i full found
    extract_lets group at planned
    split at planned
    · simp at planned
    · split at planned
      · simp at planned
      · obtain ⟨rfl, rfl⟩ := FullPlan.fold.inj (Except.ok.inj planned)
        exact ⟨List.mem_reverse.mp (List.mem_of_find?_eq_some found), fun d => List.mem_of_mem_filter⟩

theorem publish_tidies [LawfulSerdeJson] (edit : List Snapshot → List Snapshot)
    (lists : ∀ l, (∀ s ∈ l, Ledger s.ranks) → ∀ s ∈ edit l, Ledger s.ranks) : Tidies (publish edit) := by
  intro w tidy
  have edited := tidy.relist (m := { w.manifest with snapshots := edit w.manifest.snapshots })
    (lists _ tidy.lists)
  have left := ManifestIo.persist_tidies _ edited
  unfold publish
  dsimp only
  cases ran : ManifestIo.persist
    { w with manifest := { w.manifest with snapshots := edit w.manifest.snapshots } } with
  | ok u after =>
    rw [ran] at left
    exact left
  | error e after =>
    rw [ran] at left
    exact left.relist tidy.lists

theorem mergeRank_tidies [Zstd] [Xxh3] [LawfulSerdeJson] {base last : Snapshot} (context : MergedContext)
    (worldSize rank : Nat) (ofBase : Ledger base.ranks) (ofLast : Ledger last.ranks) :
    Triple Tidy (mergeRank base last context worldSize rank)
      (fun merged w => Tidy w ∧ ∀ e, merged = some e → Sheet e.2.tensors) fun _ => Tidy := by
  apply Triple.get_bind
  intro w
  cases made : mergedPack w.disk.files base last context worldSize rank with
  | error e => exact Triple.returning_error rfl fun _ => tidy_of_read
  | ok merged =>
    apply Triple.returning_ok rfl
    cases merged with
    | none => exact Triple.pure fun _ start => ⟨tidy_of_read start, nofun⟩
    | some found =>
      obtain ⟨entry, parts⟩ := found
      obtain ⟨sheet, packs⟩ := sheet_mergedPack ofBase ofLast made
      apply Triple.bind fun _ => Tidy
      · exact put_tidies (fun _ => tidy_of_read) fun w _ fits => inOrder_pack sheet packs fits
      · refine fun _ => Triple.pure fun w tidy => ⟨tidy, ?_⟩
        rintro e same
        obtain rfl := Option.some.inj same
        exact sheet

end Merger

namespace Recovery

theorem recoverOrReclaimOrphans_tidies [Xxh3] {e : Enumeration} : Tidies (recoverOrReclaimOrphans e) := by
  apply Triple.get_bind
  intro w
  extract_lets files orphans candidates
  split
  · exact Triple.throw fun s held => held.1 ▸ held.2
  split
  rename_i listed dangling admitted
  extract_lets rejects recovered snapshots
  apply Triple.modify_bind Tidy
  · rintro s ⟨rfl, tidy⟩
    apply tidy.relist
    intro t there
    have among : t ∈ listed := by
      simp only [snapshots] at there
      split at there
      · exact (List.mem_insertionSort _).mp there
      · exact there
    obtain ⟨more, is, only⟩ := @admitting_begins s.manifest.snapshots (byStep candidates)
    rw [admitted] at is
    dsimp only at is
    rw [is] at among
    rcases List.mem_append.mp among with before | new
    · exact tidy.lists t before
    · have candidate : t ∈ candidates := (List.mem_insertionSort _).mp (only new)
      obtain ⟨dir, _, rebuilt⟩ := List.mem_filterMap.mp candidate
      exact ledger_candidateOf tidy rebuilt
  · intro _
    exact Triple.bind _ (Triple.forM fun p _ => delete_tidies) fun _ => Triple.pure fun _ tidy => tidy

theorem ledger_loadManifest {cfg : Config} {w : World} (tidy : Tidy w)
    (read : loadManifest cfg w.disk.files = .ok m) :
    ∀ s ∈ m.snapshots, Ledger s.ranks := by
  simp only [loadManifest, Library.Outcome.bind_eq_ok] at read
  obtain ⟨found, loaded, read⟩ := read
  cases found with
  | some m' =>
    obtain rfl : m' = m := Except.ok.inj read
    exact ManifestIo.ledger_load tidy (by simp) loaded
  | none =>
    obtain rfl := Except.ok.inj read
    simp [Manifest.default]

theorem openStore_tidies [Xxh3] [LawfulSerdeJson] (cfg : Config) (e : Enumeration) :
    Tidies (openStore cfg e) := by
  apply Triple.get_bind
  intro w
  apply Triple.bind fun m s => Tidy s ∧ ∀ t ∈ m.snapshots, Ledger t.ranks
  · apply Triple.returning
    · rintro m s read ⟨rfl, tidy⟩
      exact ⟨tidy, ledger_loadManifest tidy read⟩
    · exact fun _ _ _ => tidy_of_read
  · intro m
    apply Triple.modify_bind Tidy
    · exact fun s start => ⟨start.1.disk, start.2⟩
    · intro _
      split
      · apply Triple.bind _ recoverOrReclaimOrphans_tidies
        intro recovered
        split
        · exact Triple.ignoring ManifestIo.persist_tidies
        · exact Triple.pure fun _ tidy => tidy
      · exact Triple.pure fun _ tidy => tidy

end Recovery
end
end
end Moonclip
