import Moonclip.Standing
import Moonclip.Threads

/-! What each call made under the manifest lock leaves: a list of the same kind, on
record or not, over files that keep standing. -/
namespace Moonclip
open Library.Codec Library.Effect Library.Files Library.Outcome

/-- A store whose index has named only what was there since the change `first`: nothing
of a `dead` snapshot is listed, nothing of one that is `coming` yet. -/
structure Intact [SerdeJson] (drawn : Drawn) (dead coming : Uuid → Prop) (first : Nat) (w : World) :
    Prop where
  bounded : ∀ p body, w.disk.accepts p body = true → body.length < 2 ^ 64
  replayed : w.disk.files = replay w.disk.journal .empty
  begun : first ≤ w.disk.journal.length
  always : ∀ n, first ≤ n → ManifestIo.Sane drawn (w.disk.journal.take n)
  spared : ∀ h ∈ ManifestIo.heads w.disk.files, ¬ dead h.id
  lists : Lists drawn w.manifest.snapshots
  alive : ∀ s ∈ w.manifest.snapshots, ¬ dead s.id
  stands : ∀ s ∈ w.manifest.snapshots, Standing w.disk.files s.id s.ranks
  written : ∀ id ∈ w.manifest.ranksWritten, ¬ dead id → (w.disk.files.find? (ranksPath id)).isSome = true
  texts : ∀ s ∈ w.manifest.snapshots, ∀ text, .put (ranksPath s.id) text ∈ w.disk.journal →
    ManifestIo.Reads w.disk.files s.id text
  packs : ∀ id file entry, Recovery.isPack file = true → file.belongsTo id = true →
    Coordinator.shardOf w.disk.files id file = .ok entry → ∃ rank, file = packPath id rank ∧
      entry.Packed id rank
  unlisted : ∀ id, coming id → (∀ s ∈ w.manifest.snapshots, s.id ≠ id) ∧
    (∀ h ∈ ManifestIo.heads w.disk.files, h.id ≠ id) ∧ ∀ text, .put (ranksPath id) text ∉ w.disk.journal
  named : ∀ id text, .put (ranksPath id) text ∈ w.disk.journal → id ∈ drawn.map (·.1)
  keyed : (drawn.map (·.1)).Nodup

/-- The list in memory, the one on record, the pins and claims; and no file that was
there is gone. -/
structure At [SerdeJson] (l r : List Snapshot) (f : InFlight) (before : Files) (w : World) : Prop where
  list : w.manifest.snapshots = l
  record : ManifestIo.recorded w.disk.files = r
  flight : w.inFlight = f
  grown : ∀ p, (before.find? p).isSome = true → (w.disk.files.find? p).isSome = true

section
variable {l : List Snapshot} {m : Manifest} {steps : Option (List Nat)}

/-- A snapshot's identifier and its base's. -/
def Snapshot.kin (s : Snapshot) : Uuid × Option Uuid := (s.id, s.baseSnapshotId)

/-- Made of what was listed, with the ranks it had. -/
def Among (l l' : List Snapshot) : Prop := ∀ t ∈ l', ∃ s ∈ l, s.id = t.id ∧ s.ranks = t.ranks

theorem Among.refl : Among l l := fun t listed => ⟨t, listed, rfl, rfl⟩

theorem Among.retain : Among m.snapshots (Retention.retain (m.syncPins steps)).1.snapshots := by
  intro t left
  obtain ⟨flag, flagged⟩ := Manifest.syncPins_eq_map m steps
  have listed := Retention.retain_sublist.subset left
  rw [flagged] at listed
  obtain ⟨s, there, rfl⟩ := List.mem_map.mp listed
  exact ⟨s, there, rfl, rfl⟩

theorem Among.evicted : Among m.snapshots (Retention.retain (m.syncPins steps)).2 := by
  intro t left
  obtain ⟨flag, flagged⟩ := Manifest.syncPins_eq_map m steps
  have listed := Retention.evicted_mem left
  rw [flagged] at listed
  obtain ⟨s, there, rfl⟩ := List.mem_map.mp listed
  exact ⟨s, there, rfl, rfl⟩

end

namespace Intact
variable [SerdeJson] {drawn : Drawn} {dead coming : Uuid → Prop} {first : Nat} {w : World} {p : Path}
  {body : Bytes} {m : Manifest}

theorem sane (held : Intact drawn dead coming first w) : ManifestIo.Sane drawn w.disk.journal := by
  have now := held.always _ held.begun
  rwa [List.take_of_length_le (Nat.le_refl _)] at now

/-- The list may become any of what was listed, what is on record and what was coming. -/
theorem relist {coming' : Uuid → Prop} (held : Intact drawn dead coming first w)
    (lists : Lists drawn m.snapshots) (stands : ∀ t ∈ m.snapshots, Standing w.disk.files t.id t.ranks)
    (within : ∀ t ∈ m.snapshots, (∃ s ∈ w.manifest.snapshots, s.id = t.id) ∨
      (∃ h ∈ ManifestIo.heads w.disk.files, h.id = t.id) ∨ coming t.id ∧ ¬ dead t.id)
    (fewer : ∀ id, coming' id → coming id ∧ ∀ t ∈ m.snapshots, t.id ≠ id)
    (written : ∀ id ∈ m.ranksWritten, ¬ dead id → (w.disk.files.find? (ranksPath id)).isSome = true) :
    Intact drawn dead coming' first { w with manifest := m } := by
  refine { held with
    lists := lists, stands := stands, written := written
    alive := fun t there => ?_, texts := fun t there text put => ?_, unlisted := fun id near => ?_ }
  · rcases within t there with ⟨s, listed, same⟩ | ⟨h, listed, same⟩ | new
    · exact same ▸ held.alive s listed
    · exact same ▸ held.spared h listed
    · exact new.2
  · rcases within t there with ⟨s, listed, same⟩ | ⟨h, listed, same⟩ | new
    · exact same ▸ held.texts s listed text (same ▸ put)
    · have texts := held.sane.texts
      rw [← held.replayed] at texts
      exact same ▸ texts h listed text (same ▸ put)
    · exact absurd put ((held.unlisted t.id new.1).2.2 text)
  · have near := fewer id near
    exact ⟨near.2, (held.unlisted id near.1).2⟩

/-- A list made of what was listed. -/
theorem within (held : Intact drawn dead coming first w) (lists : Lists drawn m.snapshots)
    (same : ∀ t ∈ m.snapshots, ∃ s ∈ w.manifest.snapshots, s.id = t.id ∧ s.ranks = t.ranks)
    (written : ∀ id ∈ m.ranksWritten,
      id ∈ w.manifest.ranksWritten ∨ (w.disk.files.find? (ranksPath id)).isSome = true) :
    Intact drawn dead coming first { w with manifest := m } := by
  apply held.relist lists
  · intro t there
    obtain ⟨s, listed, id, ranks⟩ := same t there
    exact id ▸ ranks ▸ held.stands s listed
  · intro t there
    obtain ⟨s, listed, id, _⟩ := same t there
    exact .inl ⟨s, listed, id⟩
  · intro id near
    refine ⟨near, fun t there other => ?_⟩
    obtain ⟨s, listed, same, _⟩ := same t there
    exact (held.unlisted id near).1 s listed (same.trans other)
  · intro id out alive
    rcases written id out with before | now
    · exact held.written id before alive
    · exact now

theorem flight (held : Intact drawn dead coming first w) (f : InFlight) :
    Intact drawn dead coming first { w with inFlight := f } :=
  { held with }

theorem retained (held : Intact drawn dead coming first w) (r : Option RetainedBase) :
    Intact drawn dead coming first { w with retainedBase := r } :=
  { held with }

/-- A file other than the index goes down. -/
theorem put (held : Intact drawn dead coming first w) (other : p ≠ .manifestJson)
    (reads : ∀ id, p = ranksPath id → id ∈ drawn.map (·.1) ∧ ¬ coming id ∧
      ManifestIo.Reads w.disk.files id body)
    (shards : ∀ id entry, Recovery.isPack p = true → p.belongsTo id = true →
      Coordinator.shardOf (w.disk.files.put p body) id p = .ok entry →
        ∃ rank, p = packPath id rank ∧ entry.Packed id rank) :
    Intact drawn dead coming first { w with disk := w.disk.change (.put p body) } where
  bounded := held.bounded
  replayed := by rw [Disk.files_change, Disk.journal_change, replay_snoc, ← held.replayed]
  begun := by
    have := held.begun
    simp
    omega
  always := by
    refine take_snoc held.always (held.sane.put other fun h listed same => ?_)
    rw [← held.replayed]
    exact (reads h.id same).2.2
  spared h listed := by
    apply held.spared h
    rwa [← ManifestIo.heads_congr (FileStore.find?_put_of_ne other.symm)]
  lists := held.lists
  alive := held.alive
  stands s listed := (held.stands s listed).put
  written id out alive := isSome_put (held.written id out alive)
  texts s listed text put := by
    rcases List.mem_append.mp put with before | new
    · exact (held.texts s listed text before).mono fun _ there => isSome_put there
    · simp only [List.mem_singleton, Change.put.injEq] at new
      obtain ⟨rfl, rfl⟩ := new
      exact (reads s.id rfl).2.2.mono fun _ there => isSome_put there
  packs id file entry pack own read := by
    by_cases same : file = p
    · subst same
      exact shards id entry pack own read
    · have kept : (w.disk.files.put p body).find? file = w.disk.files.find? file :=
        FileStore.find?_put_of_ne same
      exact held.packs id file entry pack own ((Coordinator.shardOf_congr kept).symm.trans read)
  unlisted id near := by
    obtain ⟨list, index, text⟩ := held.unlisted id near
    have kept : (w.disk.files.put p body).find? .manifestJson = w.disk.files.find? .manifestJson :=
      FileStore.find?_put_of_ne other.symm
    refine ⟨list, fun h listed => index h (ManifestIo.heads_congr kept ▸ listed), fun t there => ?_⟩
    · rcases List.mem_append.mp there with before | new
      · exact text t before
      · simp only [List.mem_singleton, Change.put.injEq] at new
        exact (reads id new.1.symm).2.1 near
  named id text put := by
    rcases List.mem_append.mp put with before | new
    · exact held.named id text before
    · simp only [List.mem_singleton, Change.put.injEq] at new
      exact (reads id new.1.symm).1
  keyed := held.keyed

/-- A file of a snapshot that is neither listed nor coming goes. -/
theorem delete (held : Intact drawn dead coming first w) {id : Uuid} (own : p.belongsTo id = true)
    (gone : dead id) : Intact drawn dead coming first { w with disk := w.disk.change (.delete p) } := by
  have other : p ≠ .manifestJson := by
    rintro rfl
    simp [Path.belongsTo] at own
  have spared : ∀ s ∈ w.manifest.snapshots, p.belongsTo s.id = false := by
    intro s listed
    by_contra there
    have same := Path.belongsTo_unique own (by simpa using there)
    exact held.alive s listed (same ▸ gone)
  constructor
  · exact held.bounded
  · rw [Disk.files_change, Disk.journal_change, replay_snoc, ← held.replayed]
  · have := held.begun
    simp
    omega
  · refine take_snoc held.always (held.sane.delete other fun h listed => ?_)
    rw [← held.replayed] at listed
    by_contra there
    have same := Path.belongsTo_unique own (by simpa using there)
    exact held.spared h listed (same ▸ gone)
  · intro h listed
    apply held.spared h
    rwa [← ManifestIo.heads_congr (FileStore.find?_delete_of_ne other.symm)]
  · exact held.lists
  · exact held.alive
  · exact fun s listed => (held.stands s listed).delete (spared s listed)
  · intro i out alive
    have apart : ranksPath i ≠ p := by
      rintro rfl
      have mine : (ranksPath i).belongsTo i = true := by simp
      exact alive (Path.belongsTo_unique own mine ▸ gone)
    rw [Disk.files_change, Change.apply, FileStore.find?_delete_of_ne apart]
    exact held.written i out alive
  · exact fun s listed text put => (held.texts s listed text (by simpa using put)).delete (spared s listed)
  · intro id file entry pack mine read
    by_cases same : file = p
    · subst same
      exact absurd read (Coordinator.shardOf_absent FileStore.find?_delete_self)
    · have kept : (w.disk.files.delete p).find? file = w.disk.files.find? file :=
        FileStore.find?_delete_of_ne same
      exact held.packs id file entry pack mine ((Coordinator.shardOf_congr kept).symm.trans read)
  · intro id near
    obtain ⟨list, index, text⟩ := held.unlisted id near
    have kept : (w.disk.files.delete p).find? .manifestJson = w.disk.files.find? .manifestJson :=
      FileStore.find?_delete_of_ne other.symm
    exact ⟨list, fun h listed => index h (ManifestIo.heads_congr kept ▸ listed), by simpa using text⟩
  · exact fun id text put => held.named id text (by simpa using put)
  · exact held.keyed

/-- The index goes down as the list in memory has it. -/
theorem putIndex [LawfulSerdeJson] {text : Bytes} (held : Intact drawn dead coming first w)
    (encoded : SerdeJson.index.toVec (ManifestIo.indexOf w.manifest) = .ok text) :
    Intact drawn dead coming first
      { w with disk := w.disk.change (.put .manifestJson (pad w.disk.pageSize text)) } := by
  let after := w.disk.files.put .manifestJson (pad w.disk.pageSize text)
  have found : after.find? .manifestJson = some (pad w.disk.pageSize text) := FileStore.find?_put_self
  have grown : ∀ p, (w.disk.files.find? p).isSome = true → (after.find? p).isSome = true :=
    fun _ there => isSome_put there
  have replayed : replay (w.disk.journal ++ [.put .manifestJson (pad w.disk.pageSize text)])
    .empty = after := by
    rw [replay_snoc, ← held.replayed]
    rfl
  have other : ∀ id body, .put (ranksPath id) body ∈
      w.disk.journal ++ [.put .manifestJson (pad w.disk.pageSize text)] →
        .put (ranksPath id) body ∈ w.disk.journal := by
    intro id body put
    simpa [ranksPath] using put
  have stands : ∀ s ∈ w.manifest.snapshots, Standing after s.id s.ranks :=
    fun s listed => (held.stands s listed).mono grown
  have written : ∀ id ∈ w.manifest.ranksWritten, ¬ dead id → (after.find? (ranksPath id)).isSome = true :=
    fun id out alive => grown _ (held.written id out alive)
  have texts : ∀ s ∈ w.manifest.snapshots, ∀ body, .put (ranksPath s.id) body ∈
      w.disk.journal ++ [.put .manifestJson (pad w.disk.pageSize text)] → ManifestIo.Reads after s.id body :=
    fun s listed body put => (held.texts s listed body (other s.id body put)).mono grown
  refine { held with
    replayed := replayed.symm
    begun := ?_, always := take_snoc held.always ?_, spared := ?_, stands := stands, written :=
      written, texts := texts
    packs := ?_, unlisted := ?_, named := fun id body put => held.named id body (other id body put) }
  · have := held.begun
    simp
    omega
  · rw [← replayed] at found stands written texts
    exact ManifestIo.Sane.index encoded found held.lists stands
      (fun s listed out => written s.id out (held.alive s listed)) texts
  · intro h listed
    have listed : h ∈ ManifestIo.heads after := listed
    rw [ManifestIo.heads_index encoded found] at listed
    obtain ⟨s, there, rfl⟩ := List.mem_map.mp listed
    exact held.alive s there
  · intro id file entry pack mine read
    have apart : file ≠ .manifestJson := by
      rintro rfl
      simp [Path.belongsTo] at mine
    have kept : after.find? file = w.disk.files.find? file := FileStore.find?_put_of_ne apart
    exact held.packs id file entry pack mine ((Coordinator.shardOf_congr kept).symm.trans read)
  · intro id near
    obtain ⟨list, _, text⟩ := held.unlisted id near
    refine ⟨list, fun h listed => ?_, fun body put => text body (other id body put)⟩
    have listed : h ∈ ManifestIo.heads after := listed
    rw [ManifestIo.heads_index encoded found] at listed
    obtain ⟨s, there, rfl⟩ := List.mem_map.mp listed
    exact list s there

end Intact

section
variable [SerdeJson] {drawn : Drawn} {dead coming : Uuid → Prop} {first : Nat} {l r : List Snapshot}
  {f : InFlight} {before : Files} {w : World} {p : Path} {body : Bytes} {m : Manifest}

/-- A file other than the index changes nothing that is looked at. -/
theorem At.put (at_ : At l r f before w) (other : p ≠ .manifestJson) :
    At l r f before { w with disk := w.disk.change (.put p body) } where
  list := at_.list
  record := (ManifestIo.recorded_congr (FileStore.find?_put_of_ne other.symm)).trans at_.record
  flight := at_.flight
  grown q there := isSome_put (at_.grown q there)

theorem At.relist (at_ : At l r f before w) : At m.snapshots r f before { w with manifest := m } :=
  { at_ with list := rfl }

theorem At.refl : At w.manifest.snapshots (ManifestIo.recorded w.disk.files) w.inFlight w.disk.files w :=
  ⟨rfl, rfl, rfl, fun _ there => there⟩

namespace ManifestIo

/-- One turn of the loop: the ranks of one more snapshot are in their file. -/
theorem writeRanks_intact [LawfulSerdeJson] {done : List Snapshot} {s : Snapshot} (listed : s ∈ m.snapshots) :
    Triple (fun w => Intact drawn dead coming first w ∧ At m.snapshots r f before w ∧ w.manifest = m ∧
        ∀ t ∈ done, (w.disk.files.find? (ranksPath t.id)).isSome = true)
      (writeRanks s)
      (fun _ w => Intact drawn dead coming first w ∧ At m.snapshots r f before w ∧ w.manifest = m ∧
        ∀ t ∈ done ++ [s], (w.disk.files.find? (ranksPath t.id)).isSome = true)
      (fun _ w => Intact drawn dead coming first w ∧ At m.snapshots r f before w) := by
  intro w held
  obtain ⟨intact, at_, rfl, there⟩ := held
  unfold writeRanks
  cases encoded : SerdeJson.ranks.toVec ⟨s.id, s.ranks⟩ with
  | error e => exact ⟨intact, at_⟩
  | ok text =>
    refine Storage.put_from ?_ (fun _ => ⟨intact, at_⟩) w rfl
    have reads : ∀ id, ranksPath s.id = ranksPath id → id ∈ drawn.map (·.1) ∧ ¬ coming id ∧
        Reads w.disk.files id (pad w.disk.pageSize text) := by
      intro id same
      obtain rfl : s.id = id := by simpa using same
      exact ⟨intact.lists.mem_drawn listed, fun near => (intact.unlisted s.id near).1 s listed rfl,
        reads_ranks encoded (intact.stands s listed)⟩
    refine ⟨intact.put nofun reads fun id entry pack => ?_, at_.put nofun, rfl, fun t chosen => ?_⟩
    · simp [Recovery.isPack, ranksPath, FileName.isPack] at pack
    · rcases List.mem_append.mp chosen with earlier | now
      · exact isSome_put (there t earlier)
      · obtain rfl := List.mem_singleton.mp now
        simp [Change.apply]

/-- A persist that returns has the list on record; one that fails leaves the record. -/
theorem persist_intact [LawfulSerdeJson] :
    Triple (fun w => Intact drawn dead coming first w ∧ At l r f before w)
    persist
    (fun _ w => Intact drawn dead coming first w ∧ At l (l.map Snapshot.bare) f before w)
    (fun _ w => Intact drawn dead coming first w ∧ At l r f before w) := by
  refine Triple.get_bind fun w₀ w pre => ?_
  obtain ⟨rfl, intact, at_⟩ := pre
  obtain rfl := at_.list
  generalize same : w.manifest = m at at_ ⊢
  let ready (done : List Snapshot) (w : World) : Prop :=
    Intact drawn dead coming first w ∧ At m.snapshots r f before w ∧ w.manifest = m ∧
      ∀ t ∈ done, (w.disk.files.find? (ranksPath t.id)).isSome = true
  suffices Triple (ready []) _
      (fun _ w => Intact drawn dead coming first w ∧
        At m.snapshots (m.snapshots.map Snapshot.bare) f before w)
      fun _ w => Intact drawn dead coming first w ∧ At m.snapshots r f before w from
    this w ⟨intact, at_, same, by simp⟩
  apply Triple.bind fun _ => ready (m.snapshots.filter fun s => (unwritten m).contains s.id)
  · apply Triple.forM_progress
    intro done s rest split
    have chosen : s ∈ m.snapshots.filter fun s => (unwritten m).contains s.id := by
      rw [split]
      simp
    exact writeRanks_intact (List.mem_of_mem_filter chosen)
  · intro _
    apply Triple.modify_bind fun w => Intact drawn dead coming first w ∧ At m.snapshots r f before w
    · rintro w ⟨intact, at_, rfl, there⟩
      have relisted := at_.relist (m := recordWritten (unwritten w.manifest) w.manifest)
      refine ⟨intact.within intact.lists (fun t listed => ⟨t, listed, rfl, rfl⟩) fun id out => ?_, relisted⟩
      rcases Finset.mem_union.mp (Finset.mem_filter.mp out).1 with before | now
      · exact .inl before
      · obtain ⟨t, chosen, rfl⟩ := List.mem_map.mp (List.mem_toFinset.mp now)
        refine .inr (there t (List.mem_filter.mpr ⟨List.mem_of_mem_filter chosen, ?_⟩))
        simpa using now
    · intro _
      apply Triple.get_bind
      rintro w₁ w ⟨rfl, intact, at_⟩
      dsimp only
      cases encoded : SerdeJson.index.toVec (indexOf w.manifest) with
      | error e => exact ⟨intact, at_⟩
      | ok text =>
        refine Storage.put_from ?_ (fun _ => ⟨intact, at_⟩) w rfl
        refine ⟨intact.putIndex encoded, at_.list, ?_, at_.flight, fun p there =>
          isSome_put (at_.grown p there)⟩
        rw [← at_.list]
        exact recorded_index encoded FileStore.find?_put_self

end ManifestIo

namespace Coordinator

/-- What retention takes off the list is off the record too, or nobody is told. -/
theorem applyRetention_intact [LawfulSerdeJson] :
    Triple (fun w => Intact drawn dead coming first w ∧ At l r f before w) applyRetention
      (fun evicted w => Intact drawn dead coming first w ∧
        (∃ l', At l' (l'.map Snapshot.bare) f before w ∧ Among l l' ∧ Among l evicted ∧
          ∀ d ∈ evicted, ∀ t ∈ l', t.id ≠ d.id))
      (fun _ w => Intact drawn dead coming first w ∧ ∃ l', At l' r f before w ∧ Among l l') := by
  apply Triple.get_bind
  rintro w₀ w ⟨rfl, intact, at_⟩
  obtain rfl := at_.list
  cases read : readPins w.disk.files with
  | error e => exact ⟨intact, _, at_, Among.refl⟩
  | ok steps =>
    let settled := (Retention.retain (w.manifest.syncPins steps)).1
    have lists : Lists drawn settled.snapshots := intact.lists.sync.retain
    have shrunk : Intact drawn dead coming first { w with manifest := settled } :=
      intact.within lists Among.retain fun _ out => .inl (by
        cases steps <;> exact out)
    suffices Triple (fun w => Intact drawn dead coming first w ∧ At settled.snapshots r f before w)
        (ManifestIo.persist >>= fun _ => pure (Retention.retain (w.manifest.syncPins steps)).2) _ _ from
      this { w with manifest := settled } ⟨shrunk, at_.relist⟩
    apply Triple.bind fun _ w => Intact drawn dead coming first w ∧
      At settled.snapshots (settled.snapshots.map Snapshot.bare) f before w
    · exact Triple.weaken _ ManifestIo.persist_intact (fun _ held => held) (fun _ _ held => held)
        fun _ _ held => ⟨held.1, _, held.2, Among.retain⟩
    · intro _
      apply Triple.pure
      rintro w' ⟨intact', at'⟩
      exact ⟨intact', _, at', Among.retain, Among.evicted,
        fun d gone t left => Retention.evicted_gone intact.lists.sync.distinct gone left⟩

theorem writePins_intact {steps : List Nat} :
    Triple (fun w => Intact drawn dead coming first w ∧ At l r f before w) (writePins steps)
      (fun _ w => Intact drawn dead coming first w ∧ At l r f before w)
      (fun _ w => Intact drawn dead coming first w ∧ At l r f before w) := by
  refine Triple.returning_keep (fun json => ?_) fun _ _ held => held
  refine Storage.put_spec ?_ fun _ _ held => held
  rintro w ⟨intact, at_⟩ _
  refine ⟨intact.put nofun (fun id same => ?_) fun id entry pack => ?_, at_.put nofun⟩
  · simp [ranksPath] at same
  · simp [Recovery.isPack] at pack

/-- A pin is a flag and a line in `pins.json`. -/
theorem setPinned_intact [LawfulSerdeJson] {step : Nat} {pinned : Bool} :
    Triple (fun w => Intact drawn dead coming first w ∧ At l r f before w) (setPinned step pinned)
      (fun _ w => Intact drawn dead coming first w ∧
        ∃ l' r', At l' r' f before w ∧ l'.map Snapshot.kin = l.map Snapshot.kin)
      (fun _ w => Intact drawn dead coming first w ∧
        ∃ l' r', At l' r' f before w ∧ l'.map Snapshot.kin = l.map Snapshot.kin) := by
  rintro w ⟨intact, at_⟩
  obtain rfl := at_.list
  refine (Triple.get_bind_of ?_ : Triple (fun s => s = w) (setPinned step pinned) _ _) w rfl
  extract_lets m
  split
  · rintro w rfl
    exact ⟨intact, _, _, at_, rfl⟩
  · rename_i target _
    extract_lets flagged rest
    have flag : Among m.snapshots flagged := by
      intro t listed
      obtain ⟨s, there, rfl⟩ := List.mem_map.mp listed
      refine ⟨s, there, ?_⟩
      split <;> simp
    have kin : flagged.map Snapshot.kin = m.snapshots.map Snapshot.kin := by
      rw [List.map_map]
      apply List.map_congr_left
      intro s _
      change (if s.id = target.id then { s with pinned := pinned } else s).kin = s.kin
      split <;> rfl
    have lists : Lists drawn flagged := by
      apply intact.lists.map <;> (intro s; split <;> rfl)
    let inv (w : World) : Prop := Intact drawn dead coming first w ∧ ∃ r', At flagged r' f before w
    have keeps {α : Type} {act : Act α} (spec : ∀ r', Triple (fun w => Intact drawn dead coming first w ∧
        At flagged r' f before w) act (fun _ => inv) fun _ => inv) :
          Triple inv act (fun _ => inv) fun _ => inv :=
      fun w held => spec held.2.choose w ⟨held.1, held.2.choose_spec⟩
    have record : Triple inv (rest ⟨⟩) (fun _ => inv) fun _ => inv := by
      apply Triple.get_keep
      intro w
      apply Triple.returning_keep _ fun _ _ held => held
      intro recorded
      apply Triple.bind (fun _ => inv) _ fun _ => Triple.pure fun _ held => held
      apply keeps
      intro r'
      exact Triple.weaken _ writePins_intact (fun _ held => held) (fun _ _ held => ⟨held.1, _, held.2⟩)
        fun _ _ held => ⟨held.1, _, held.2⟩
    have enough : ∀ w, inv w → Intact drawn dead coming first w ∧
        ∃ l' r', At l' r' f before w ∧ l'.map Snapshot.kin = m.snapshots.map Snapshot.kin :=
      fun w held => ⟨held.1, _, _, held.2.choose_spec, kin⟩
    refine Triple.weaken _ (Triple.modify_bind inv ?_ fun _ => ?_) (fun _ start => start)
      (fun _ => enough) fun _ => enough
    · rintro w rfl
      have relisted := at_.relist (m := { w.manifest with snapshots := flagged })
      exact ⟨intact.within lists flag fun _ out => .inl out, _, relisted⟩
    · split
      · refine Triple.bind (fun _ => inv) (keeps fun r' => ?_) fun _ => record
        exact Triple.weaken _ ManifestIo.persist_intact (fun _ held => held)
          (fun _ _ held => ⟨held.1, _, held.2⟩)
          fun _ _ held => ⟨held.1, _, held.2⟩
      · exact record

end Coordinator
end
end Moonclip
