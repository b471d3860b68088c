import Moonclip.Failures
import Moonclip.Restoring

/-! What a finalize that returns leaves: the snapshot filled in, in memory and on record,
unless retention has it leave at once. -/
namespace Moonclip
open Library.Codec Library.Effect Library.Files Library.Outcome

namespace ManifestIo
variable [SerdeJson] {files files' : Files}

/-- What `manifest.json` lists. -/
def heads (files : Files) : List Head :=
  match files.find? .manifestJson with
  | none => []
  | some data => ((SerdeJson.index.fromSlice (trimZeros data)).toOption.map (·.snapshots)).getD []

theorem heads_congr (same : files'.find? .manifestJson = files.find? .manifestJson) :
    heads files' = heads files := by
  simp only [heads, same]

theorem heads_index [LawfulSerdeJson] {m : Manifest} {page : Nat} {text : Bytes}
    (encoded : SerdeJson.index.toVec (indexOf m) = .ok text)
    (found : files.find? .manifestJson = some (pad page text)) :
    heads files = m.snapshots.map (headOf m.ranksWritten) := by
  have read := LawfulSerdeJson.index.roundTrip encoded
  simp [heads, found, trimZeros_pad (LawfulSerdeJson.index.closed encoded), read, Except.toOption, indexOf]

theorem readRanks_ranks [LawfulSerdeJson] {s : Snapshot} {page : Nat} {text : Bytes} {p : Path}
    (encoded : SerdeJson.ranks.toVec ⟨s.id, s.ranks⟩ = .ok text)
      (found : files.find? p = some (pad page text)) :
    readRanks files p s.id = some s.ranks := by
  have read := LawfulSerdeJson.ranks.roundTrip encoded
  simp [readRanks, Storage.get, found, trimZeros_pad (LawfulSerdeJson.ranks.closed encoded), read,
    Except.toOption]

/-- The index lists the snapshot: that is what one of its heads reads as, whose ranks are
in it or in the file every snapshot has for them. -/
def ListedOn (files : Files) (s : Snapshot) : Prop :=
  ∃ h ∈ heads files, listedAs files h = some s ∧ ∀ p, h.ranksFile = some p → p = ranksPath s.id

theorem ListedOn.congr {s : Snapshot} (listed : ListedOn files s)
    (index : files'.find? .manifestJson = files.find? .manifestJson)
    (ranks : files'.find? (ranksPath s.id) = files.find? (ranksPath s.id)) : ListedOn files' s := by
  obtain ⟨h, there, read, file⟩ := listed
  refine ⟨h, heads_congr index ▸ there, ?_, file⟩
  rw [listedAs_congr fun p named => file p named ▸ ranks]
  exact read

/-- A persist that returns has put on record every listed snapshot that was in no file. -/
theorem persist_lists [LawfulSerdeJson] {w : World} {s : Snapshot} (distinct : Distinct w.manifest.snapshots)
    (listed : s ∈ w.manifest.snapshots) (new : s.id ∉ w.manifest.ranksWritten) :
    Triple (fun now => now = w) persist (fun _ now => ListedOn now.disk.files s) fun _ _ => True := by
  have mine : s.id ∈ unwritten w.manifest ↔ outOfLine s = true := by
    simp only [unwritten, List.mem_map, List.mem_filter, Bool.and_eq_true, decide_eq_true_eq]
    constructor
    · rintro ⟨t, ⟨there, outside, _⟩, same⟩
      exact distinct.eq_of_id there listed same ▸ outside
    · exact fun outside => ⟨s, ⟨listed, outside, new⟩, rfl⟩
  refine Triple.get_bind_of ?_
  -- the loop: once `s` has had its turn, its file reads back
  let turned (done : List Snapshot) (now : World) : Prop := now.manifest = w.manifest ∧
    (s ∈ done → readRanks now.disk.files (ranksPath s.id) s.id = some s.ranks)
  refine Triple.bind
    (fun _ => turned (w.manifest.snapshots.filter fun t => (unwritten w.manifest).contains t.id))
    (Triple.weaken (turned []) (Triple.forM_progress fun done t rest split => ?_) ?_ (fun _ _ held => held)
      fun _ _ held => held) fun _ => ?_
  · have there : t ∈ w.manifest.snapshots := by
      have chosen : t ∈ done ++ t :: rest := by simp
      exact (List.mem_filter.mp (split ▸ chosen)).1
    refine Triple.bind (fun text now => turned done now ∧ SerdeJson.ranks.toVec ⟨t.id, t.ranks⟩ = .ok text)
      (Triple.returning (fun text now made held => ⟨held, mapError_eq_ok.mp made⟩) fun _ _ _ _ => trivial)
      fun text => Storage.put_spec (fun now held _ => ⟨held.1.1, fun done => ?_⟩) fun _ _ _ => trivial
    obtain ⟨⟨_, before⟩, encoded⟩ := held
    by_cases same : t.id = s.id
    · obtain rfl := distinct.eq_of_id there listed same
      exact readRanks_ranks encoded FileStore.find?_put_self
    · have other : ranksPath s.id ≠ ranksPath t.id := by simpa [ranksPath_inj] using Ne.symm same
      refine (readRanks_congr (FileStore.find?_put_of_ne other)).trans (before ?_)
      simpa [show s ≠ t from fun is => same (is ▸ rfl)] using done
  · rintro now rfl
    exact ⟨rfl, by simp⟩
  · refine Triple.modify_bind (fun now => now.manifest = recordWritten (unwritten w.manifest) w.manifest ∧
      (outOfLine s = true → readRanks now.disk.files (ranksPath s.id) s.id = some s.ranks))
        (fun now held => ?_) fun _ => ?_
    · refine ⟨by rw [held.1], fun outside => held.2 (List.mem_filter.mpr ⟨listed, ?_⟩)⟩
      simpa using mine.mpr outside
    refine Triple.get_bind fun now => ?_
    refine Triple.bind
      (fun text after => after = now ∧ SerdeJson.index.toVec (indexOf now.manifest) = .ok text ∧
        now.manifest = recordWritten (unwritten w.manifest) w.manifest ∧
          (outOfLine s = true → readRanks now.disk.files (ranksPath s.id) s.id = some s.ranks))
      (Triple.returning (fun text after made held => ⟨held.1, mapError_eq_ok.mp made, held.1 ▸ held.2⟩)
        fun _ _ _ _ => trivial) fun text => Storage.put_spec (fun after held _ => ?_) fun _ _ _ => trivial
    obtain ⟨rfl, encoded, manifest, file⟩ := held
    refine ⟨headOf after.manifest.ranksWritten s, ?_, ?_⟩
    · refine (heads_index encoded FileStore.find?_put_self).symm ▸ List.mem_map_of_mem ?_
      rw [manifest]
      exact listed
    have known : s.id ∈ after.manifest.ranksWritten ↔ outOfLine s = true := by
      rw [manifest, ← mine]
      have named : ∃ t ∈ w.manifest.snapshots, t.id = s.id := ⟨s, listed, rfl⟩
      simp [recordWritten, new, named]
    by_cases outside : outOfLine s = true
    · have written := known.mpr outside
      have there : readRanks (after.disk.files.put .manifestJson (pad after.disk.pageSize text))
        (ranksPath s.id)
          s.id = some s.ranks :=
        (readRanks_congr (FileStore.find?_put_of_ne (by simp [ranksPath]))).trans (file outside)
      refine ⟨?_, fun p named => ?_⟩
      · simp only [listedAs, headOf, if_pos written]
        exact (congrArg (Option.map _) there).trans rfl
      · simpa [Head.ranksFile, headOf, written] using named.symm
    · have inline := mt known.mp outside
      refine ⟨?_, fun p named => ?_⟩
      · simp only [listedAs, headOf, if_neg inline]
        rfl
      · simp [Head.ranksFile, headOf, inline] at named

end ManifestIo

namespace Coordinator
variable [SerdeJson] {cfg : Config} {snapId : Uuid} {shards : RankMap} {w after : World} {m : Manifest}

/-- The end of a finalize: the packs are read, and the list is changed. -/
def publishAssembled (cfg : Config) (snapId : Uuid) (shards : RankMap) : Act Unit := do
  let m ← returning (assemble cfg snapId shards (← get).manifest)
  modify fun w => { w with manifest := m }
  let evicted ← applyRetention
  unlinkSnapshots evicted

/-- The three parts, one after the other, are the call. -/
theorem finalizeSnapshot_eq_ok : finalizeSnapshot cfg snapId w = .ok () after ↔
    ∃ mid shards, reloadManifest w = .ok () mid ∧ collectRankShards mid.disk.files snapId = .ok shards ∧
      publishAssembled cfg snapId shards mid = .ok () after := by
  simp only [finalizeSnapshot, publishAssembled, finalized, Library.Effect.bind_eq_ok, get_eq_ok,
    returning_eq_ok, Library.Outcome.bind_eq_ok]
  constructor
  · rintro ⟨_, mid, reread, _, _, ⟨rfl, rfl⟩, m, _, ⟨⟨shards, collected, made⟩, rfl⟩, rest⟩
    exact ⟨_, shards, reread, collected, _, _, ⟨rfl, rfl⟩, m, _, ⟨made, rfl⟩, rest⟩
  · rintro ⟨mid, shards, reread, collected, _, _, ⟨rfl, rfl⟩, m, _, ⟨made, rfl⟩, rest⟩
    exact ⟨_, _, reread, _, _, ⟨rfl, rfl⟩, m, _, ⟨⟨shards, collected, made⟩, rfl⟩, rest⟩

/-- The list as every process keeps it: no identifier twice, each snapshot's files in its
own directory, and no file of ranks before a snapshot is finalized. -/
structure Filed (m : Manifest) (snapId : Uuid) : Prop where
  distinct : Distinct m.snapshots
  own : ∀ s ∈ m.snapshots, ∀ p ∈ s.filesOf none, p.belongsTo s.id = true
  unwritten : snapId ∉ m.ranksWritten

/-- What is left of a snapshot with these ranks: it is listed with them, finalized, in
memory and, if the list was in order, on record; or retention has it leave. -/
structure Published (snapId : Uuid) (shards : RankMap) (w after : World) (m : Manifest) : Prop where
  settled : after.manifest.snapshots = settledOn w.disk.files m
  listed : ∀ s, after.manifest.findSnapshot snapId = some s →
    s.finalized = true ∧ s.ranks = shards ∧ (Filed w.manifest snapId → ManifestIo.ListedOn after.disk.files s)
  evicted : after.manifest.findSnapshot snapId = none → ∃ steps, readPins w.disk.files = .ok steps ∧
    ∃ s ∈ (Retention.retain (m.syncPins steps)).2, s.id = snapId

theorem publishAssembled_eq_ok (ran : publishAssembled cfg snapId shards w = .ok () after) :
    ∃ m evicted mid, assemble cfg snapId shards w.manifest = .ok m ∧
      applyRetention { w with manifest := m } = .ok evicted mid ∧
        unlinkSnapshots evicted mid = .ok () after := by
  simp only [publishAssembled, Library.Effect.bind_eq_ok, get_eq_ok, returning_eq_ok, modify_eq_ok] at ran
  obtain ⟨_, _, ⟨rfl, rfl⟩, m, _, ⟨made, rfl⟩, _, _, rfl, evicted, mid, retained, unlinked⟩ := ran
  exact ⟨m, evicted, mid, made, retained, unlinked⟩

omit [SerdeJson] in
/-- The snapshot that is filled in is the one found under its identifier. -/
theorem findSnapshot_assemble (made : assemble cfg snapId shards w.manifest = .ok m) : ∃ s,
    w.manifest.findSnapshot snapId = some s ∧
      m.findSnapshot snapId = some { s with ranks := shards, finalized := true } := by
  obtain ⟨_, before, s, rest, split, older, named, rfl⟩ := assemble_eq_ok made
  have none : before.find? (·.id == snapId) = none := by simpa using older
  refine ⟨s, ?_, ?_⟩
  · simp [Manifest.findSnapshot, split, List.find?_append, none, named]
  · simp [Manifest.findSnapshot, List.find?_append, none, named]

omit [SerdeJson] in
/-- Nothing but the one snapshot changes. -/
theorem mem_assemble (made : assemble cfg snapId shards w.manifest = .ok m) {s : Snapshot}
    (listed : s ∈ m.snapshots) :
    s ∈ w.manifest.snapshots ∨ s.id = snapId := by
  obtain ⟨_, before, t, rest, split, _, named, rfl⟩ := assemble_eq_ok made
  rw [split]
  simp only [List.mem_append, List.mem_cons] at listed ⊢
  rcases listed with earlier | rfl | later
  · exact .inl (.inl earlier)
  · exact .inr named
  · exact .inl (.inr (.inr later))

omit [SerdeJson] in
theorem assemble_distinct (made : assemble cfg snapId shards w.manifest = .ok m)
    (distinct : Distinct w.manifest.snapshots) : Distinct m.snapshots := by
  obtain ⟨_, before, s, rest, split, _, _, rfl⟩ := assemble_eq_ok made
  rw [Distinct, split] at distinct
  simpa [Distinct] using distinct

omit [SerdeJson] in
theorem assemble_ranksWritten (made : assemble cfg snapId shards w.manifest = .ok m) :
    m.ranksWritten = w.manifest.ranksWritten := by
  obtain ⟨_, _, _, _, _, _, _, rfl⟩ := assemble_eq_ok made
  rfl

/-- Unlinking the files of others leaves a snapshot on record. -/
theorem unlinkSnapshots_keeps_record {doomed : List Snapshot} {s : Snapshot}
    (fail : MoonclipError → World → Prop)
    (apart : ∀ d ∈ doomed, d.id ≠ s.id ∧ ∀ p ∈ d.filesOf none, p.belongsTo d.id = true) :
    Triple (fun now => ManifestIo.ListedOn now.disk.files s) (unlinkSnapshots doomed)
      (fun _ now => ManifestIo.ListedOn now.disk.files s) fail := by
  refine Triple.get_keep fun w => ?_
  split
  · exact Triple.pure fun _ held => held
  refine Triple.forM fun p there => Storage.delete_spec (fun _ held => held) fun now held => ?_
  obtain ⟨d, gone, there⟩ := List.mem_flatMap.mp there
  obtain ⟨other, own⟩ := apart d gone
  have mine : p.belongsTo d.id = true := by
    rcases List.mem_append.mp there with named | ranks
    · exact own p named
    · rw [List.mem_singleton.mp ranks]
      simp
  refine held.congr (FileStore.find?_delete_of_ne ?_) (FileStore.find?_delete_of_ne ?_)
  · rintro rfl
    contradiction
  · rintro rfl
    rw [belongsTo_ranksPath, decide_eq_true_eq] at mine
    exact other mine.symm

theorem publishAssembled_published [LawfulSerdeJson]
    (ran : publishAssembled cfg snapId shards w = .ok () after) :
    ∃ m, assemble cfg snapId shards w.manifest = .ok m ∧ Published snapId shards w after m := by
  obtain ⟨m, evicted, mid, made, retained, unlinked⟩ := publishAssembled_eq_ok ran
  obtain ⟨steps, written, read, _, rfl, manifest⟩ := applyRetention_ok retained
  have kept : after.manifest = mid.manifest :=
    (@unlinkSnapshots_manifest (fun now => now = mid.manifest) _ fun _ _ => True).ok rfl unlinked
  have settled : after.manifest.snapshots = (Retention.retain (m.syncPins steps)).1.snapshots := by
    rw [kept, manifest]
  obtain ⟨flag, flagged⟩ := Manifest.syncPins_eq_map m steps
  refine ⟨m, made, ?_, fun s found => ?_, fun none => ⟨steps, read, ?_⟩⟩
  · rw [settled, settledOn, read]
  · have stays : (Retention.retain (m.syncPins steps)).1.findSnapshot snapId = some s := by
      rw [← found, Manifest.findSnapshot, Manifest.findSnapshot, settled]
    have before := Retention.findSnapshot_retain stays
    rw [Manifest.findSnapshot, flagged, List.find?_map] at before
    obtain ⟨u, first, rfl⟩ := Option.map_eq_some_iff.mp before
    obtain ⟨t, _, filled⟩ := findSnapshot_assemble made
    obtain rfl := Option.some.inj (first.symm.trans filled)
    refine ⟨rfl, rfl, fun filed => ?_⟩
    have listed := List.mem_of_find?_eq_some stays
    have named : t.id = snapId := by simpa using List.find?_some filled
    have distinct : Distinct (m.syncPins steps).snapshots :=
      Manifest.syncPins_distinct (assemble_distinct made filed.distinct)
    obtain ⟨steps', again, _, persisted⟩ := applyRetention_eq_ok.mp retained
    obtain rfl : steps' = steps := Except.ok.inj (again.symm.trans read)
    have recorded := (ManifestIo.persist_lists (Retention.retain_distinct distinct) listed
      (by simpa [named, assemble_ranksWritten made] using filed.unwritten)).ok rfl persisted
    refine (unlinkSnapshots_keeps_record (fun _ _ => True) fun d doomed => ?_).ok recorded unlinked
    have apart : d.id ≠ snapId := fun same =>
      Retention.evicted_gone distinct doomed listed (named.trans same.symm)
    have origin := Retention.evicted_mem doomed
    rw [flagged] at origin
    obtain ⟨u, before, rfl⟩ := List.mem_map.mp origin
    exact ⟨named ▸ apart, filed.own u ((mem_assemble made before).resolve_right apart)⟩
  · have empty : ∀ s ∈ (Retention.retain (m.syncPins steps)).1.snapshots, s.id ≠ snapId := by
      rw [Manifest.findSnapshot, settled] at none
      simpa using none
    obtain ⟨t, _, filled⟩ := findSnapshot_assemble made
    have there := List.mem_map_of_mem (f := fun s : Snapshot => { s with pinned := flag s })
      (List.mem_of_find?_eq_some filled)
    rw [← flagged] at there
    have named : t.id = snapId := by simpa using List.find?_some filled
    refine ⟨_, (List.mem_append.mp (Retention.retain_perm.mem_iff.mpr there)).resolve_left
      fun stays => ?_, named⟩
    exact empty _ stays named

end Coordinator
end Moonclip
