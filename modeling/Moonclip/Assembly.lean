import Moonclip.Finalizing
import Moonclip.Packs
import Moonclip.Processes
import Moonclip.Library.Steps
import Moonclip.Library.Tables
import Mathlib.Data.Finset.Card

/-! Several ranks writing one snapshot while rank 0 collects it: what is filled in
is what the ranks wrote, all of it, or nothing is. -/
namespace Moonclip
open Library.Codec Library.Effect Library.Files Library.Outcome Library.Steps

namespace Coordinator
variable [SerdeJson] {files files' : Files} {snapId : Uuid} {file : Path} {entry : RankEntry}

theorem shardOf_congr (same : files'.find? file = files.find? file) :
    shardOf files' snapId file = shardOf files snapId file := by
  simp only [shardOf, Storage.getRange_congr same]

theorem shardOf_absent (absent : files.find? file = none) : shardOf files snapId file ≠ .ok entry := by
  simp [shardOf, Storage.getRange_absent absent, bind, Except.bind]

variable {descriptor : PackDescriptor} {blobs parts : List Bytes} {page : Nat}

/-- A pack of this snapshot is read for what its rank wrote. -/
theorem shardOf_pack [LawfulSerdeJson] (made : packParts descriptor blobs = .ok parts)
    (fits : (pad page parts.flatten).length < 2 ^ 64)
    (stored : files.find? file = some (pad page parts.flatten)) (own : descriptor.snapshotId = snapId) :
    shardOf files snapId file = .ok descriptor.rank := by
  obtain ⟨encoded, header, offset, written, head, decoded, text⟩ := getRange_pack made stored fits
  have read := LawfulSerdeJson.descriptor.roundTrip written
  simp only [shardOf, head, text, bind, Except.bind, pure, Except.pure, decoded, read]
  simp [own, Except.mapError]

/-- Another snapshot's pack is refused. -/
theorem shardOf_foreign [LawfulSerdeJson] (made : packParts descriptor blobs = .ok parts)
    (fits : (pad page parts.flatten).length < 2 ^ 64)
    (stored : files.find? file = some (pad page parts.flatten)) (other : descriptor.snapshotId ≠ snapId) :
    shardOf files snapId file ≠ .ok entry := by
  obtain ⟨encoded, header, offset, written, head, decoded, text⟩ := getRange_pack made stored fits
  have read := LawfulSerdeJson.descriptor.roundTrip written
  simp only [shardOf, head, text, bind, Except.bind, pure, Except.pure, decoded, read]
  simp [other, Except.mapError, throw, throwThe, MonadExceptOf.throw]

/-- A pack cut short is refused, wherever the cut falls. -/
theorem shardOf_truncated [LawfulSerdeJson] {kept : Nat} (made : packParts descriptor blobs = .ok parts)
    (fits : (pad page parts.flatten).length < 2 ^ 64) (short : kept < parts.flatten.length)
    (stored : files.find? file = some (parts.flatten.take kept)) : shardOf files snapId file ≠ .ok entry := by
  obtain ⟨encoded, offset, text, laid, decoded, _⟩ := pack_reads made fits
  have there : 0 < encoded.length := by
    obtain ⟨last, ends, _⟩ := LawfulSerdeJson.descriptor.closed text
    exact List.length_pos_iff.mpr fun none => by simp [none] at ends
  have head : Storage.getRange files file 0 Pack.headerLen =
      .ok ((parts.flatten.take kept).take Pack.headerLen) :=
    Storage.getRange_of_le stored (Nat.zero_le _) (le_max_of_le_left (by decide))
  simp only [shardOf, head, bind, Except.bind, pure, Except.pure]
  by_cases headless : kept < Pack.headerLen
  · have unread : Pack.decodeHeader ((parts.flatten.take kept).take Pack.headerLen) = none := by
      simp [Pack.decodeHeader]
      omega
    simp [unread, throw, throwThe, MonadExceptOf.throw]
  · have same : (parts.flatten.take kept).take Pack.headerLen = (pad page parts.flatten).take
      Pack.headerLen := by
      obtain ⟨n, filled⟩ := pad_eq page parts.flatten
      rw [filled, List.take_take, List.take_append_of_le_length (by omega), Nat.min_eq_left (by omega)]
    have cut : (((parts.flatten.take kept).drop offset).take encoded.length).length ≠ encoded.length := by
      simp only [List.length_take, List.length_drop]
      omega
    rw [same, decoded]
    dsimp only
    cases text : Storage.getRange files file offset encoded.length with
    | error e => simp
    | ok bytes =>
      obtain ⟨_, found, rfl⟩ := Storage.getRange_eq_ok text
      obtain rfl := Option.some.inj (stored.symm.trans found)
      simp only [if_pos cut, throw, throwThe, MonadExceptOf.throw]
      simp

/-- A file is as it was, or gone; the file system takes what it took. -/
structure Unwritten (file : Path) (before w : World) : Prop where
  file : w.disk.files.find? file = before.disk.files.find? file ∨ w.disk.files.find? file = none
  accepts : w.disk.accepts = before.disk.accepts

variable {before : World} {cfg : Config} {context : SnapshotContext} {shards : RankMap}

omit [SerdeJson] in
theorem Unwritten.put {w : World} {p : Path} {body : Bytes} (held : Unwritten file before w)
    (other : file ≠ p) :
    Unwritten file before { w with disk := w.disk.change (.put p body) } where
  file := held.file.imp (fun same => (FileStore.find?_put_of_ne other).trans same)
    fun gone => (FileStore.find?_put_of_ne other).trans gone
  accepts := held.accepts

omit [SerdeJson] in
theorem Unwritten.delete {w : World} {p : Path} (held : Unwritten file before w) :
    Unwritten file before { w with disk := w.disk.change (.delete p) } where
  file := by
    by_cases same : file = p
    · exact .inr (by simp [same, Change.apply])
    · exact held.file.imp (fun same' => (FileStore.find?_delete_of_ne same).trans same')
        fun gone => (FileStore.find?_delete_of_ne same).trans gone
  accepts := held.accepts

theorem persist_unwritten (pack : Recovery.isPack file = true) : Triple (Unwritten file before)
    ManifestIo.persist (fun _ => Unwritten file before) fun _ => Unwritten file before := by
  refine ManifestIo.persist_invariant (fun _ _ held => ⟨held.file, held.accepts⟩)
    fun w p body held wrote => ?_
  refine held.put ?_
  rcases wrote with rfl | ⟨id, rfl⟩ <;> rintro rfl <;>
    simp [Recovery.isPack, ranksPath, FileName.isPack] at pack

omit [SerdeJson] in
theorem unlinkSnapshots_unwritten {doomed : List Snapshot} {fail : MoonclipError → World → Prop} :
    Triple (Unwritten file before) (unlinkSnapshots doomed) (fun _ => Unwritten file before) fail := by
  refine Triple.get_keep fun w => ?_
  split
  · exact Triple.pure fun _ held => held
  · exact Triple.forM fun p _ => Storage.delete_spec (fun _ held => held) fun s held => held.delete

theorem applyRetention_unwritten (pack : Recovery.isPack file = true) : Triple (Unwritten file before)
    applyRetention (fun _ => Unwritten file before) fun _ => Unwritten file before := by
  refine Triple.get_keep fun w => Triple.returning_keep (fun steps => ?_) fun _ _ held => held
  refine Triple.get_keep fun w' =>
    Triple.modify_bind (Unwritten file before) (fun _ held => ⟨held.file, held.accepts⟩) fun _ => ?_
  exact Triple.bind _ (persist_unwritten pack) fun _ => Triple.pure fun _ held => held

theorem createSnapshot_unwritten (pack : Recovery.isPack file = true) : Triple (Unwritten file before)
    (createSnapshot cfg snapId context) (fun _ => Unwritten file before) fun _ => Unwritten file before :=
  Triple.get_keep fun _ =>
    Triple.modify_bind (Unwritten file before) (fun _ held => ⟨held.file, held.accepts⟩) fun _ =>
    persist_unwritten pack

theorem publishAssembled_unwritten (pack : Recovery.isPack file = true) : Triple (Unwritten file before)
    (publishAssembled cfg snapId shards) (fun _ => Unwritten file before) fun _ => Unwritten file before := by
  refine Triple.get_keep fun w => Triple.returning_keep (fun m => ?_) fun _ _ held => held
  refine Triple.modify_bind (Unwritten file before) (fun _ held => ⟨held.file, held.accepts⟩) fun _ => ?_
  exact Triple.bind _ (applyRetention_unwritten pack) fun _ => unlinkSnapshots_unwritten

end Coordinator

/-- A rank's save between its reads and its one write. -/
structure PendingSave where
  snapId : Uuid
  entry : RankEntry
  parts : List Bytes

/-- Ranks with one store open, any number of snapshots in progress: the saves under way,
the packs left to read of each finalize with the shards read so far, the snapshots
created and what each rank has written to them. Rank 0 coordinates. -/
structure Assembling extends Processes Nat where
  saving : Nat → Option PendingSave
  collecting : Uuid → Option (List Path × List RankEntry)
  created : List Uuid
  wrote : Uuid → Nat → Option RankEntry

/-- What may happen next. A retained base is left to chance; `other` is whatever else
goes on, damage included, that makes no pack of a snapshot in progress. -/
inductive RankEvent where
  | create (snapId : Uuid) (context : SnapshotContext)
  | read (rank : Nat) (snapId : Uuid) (tensors : List TensorData) (retained : Option RetainedBase)
  | write (rank : Nat)
  | list (snapId : Uuid)
  | collect (snapId : Uuid)
  | publish (snapId : Uuid)
  | other (i : Nat) (memory : Memory) (files : Files)

namespace Assembling
variable [Zstd] [Xxh3] [SerdeJson]

/-- The ranks share a configuration up to what is theirs. -/
def configOf (cfg : Nat → Config) (rank : Nat) : Config := { cfg rank with rank := rank }

def worldSize (cfg : Nat → Config) : Nat := (configOf cfg 0).worldSize

/-- A save as far as its write: the manifest re-read, and the pack. -/
def readSave (cfg : Config) (snapId : Uuid) (tensors : List TensorData) (w : World) :
    Except MoonclipError (Manifest × PendingSave) := do
  let m ← Coordinator.reloaded true w.disk.files w.manifest
  match m.findSnapshot snapId with
  | none => throw (Coordinator.snapshotMissing snapId)
  | some snap =>
    let (entry, parts) ← Coordinator.packOfSave cfg snapId (snap.baseSnapshotId.bind m.findSnapshot) tensors
      ⟨snap.step, snap.createdAt, snap.metadata⟩ { w with manifest := m }
    return (m, ⟨snapId, entry, parts⟩)

/-- Every pack of a snapshot in progress is as it was, or nothing one would read. -/
def leavesPacks (s : Assembling) (files : Files) : Bool :=
  files.names.all fun file => s.created.all fun id =>
    !(Recovery.isPack file && file.belongsTo id) || decide (files.find? file = s.disk.files.find? file) ||
      !(Coordinator.shardOf files id file).isOk

def step (cfg : Nat → Config) (s : Assembling) : RankEvent → Option Assembling
  | .create snapId context =>
    if snapId ∈ s.created ∨ Storage.listSnapshot s.disk.files snapId ≠ [] then none
    else some { s with
      toProcesses :=
        s.after 0 (finalState (Coordinator.createSnapshot (configOf cfg 0) snapId context) (s.world 0))
      created := snapId :: s.created }
  | .read rank snapId tensors retained =>
    if rank < worldSize cfg ∧ snapId ∈ s.created ∧ s.saving rank = none ∧ s.wrote snapId rank = none then
      match readSave (configOf cfg rank) snapId tensors (s.world rank) with
      | .error _ => none
      | .ok (m, save) => some { s with
          toProcesses := s.after rank { s.world rank with manifest := m, retainedBase := retained }
          saving := Function.update s.saving rank (some save) }
    else none
  | .write rank =>
    match s.saving rank with
    | none => none
    | some save =>
      match Storage.putParts (packPath save.snapId rank) save.parts (s.world rank) with
      | .error _ _ => some { s with saving := Function.update s.saving rank none }
      | .ok _ w => some { s with
          toProcesses := s.after rank w
          saving := Function.update s.saving rank none
          wrote := Function.update s.wrote save.snapId
            (Function.update (s.wrote save.snapId) rank (some save.entry)) }
  | .list snapId =>
    if snapId ∈ s.created then
      match Coordinator.reloadManifest (s.world 0) with
      | .error _ _ => none
      | .ok _ w => some { s with
          toProcesses := s.after 0 w
          collecting := Function.update s.collecting snapId
            (some (Coordinator.packsOf s.disk.files snapId, [])) }
    else none
  | .collect snapId =>
    match s.collecting snapId with
    | some (file :: rest, shards) =>
      match Coordinator.shardOf s.disk.files snapId file with
      | .error _ => some { s with collecting := Function.update s.collecting snapId none }
      | .ok shard => some { s with
          collecting := Function.update s.collecting snapId (some (rest, shards ++ [shard])) }
    | _ => none
  | .publish snapId =>
    match s.collecting snapId with
    | some ([], shards) => some { s with
        toProcesses := s.after 0 (finalState
          (Coordinator.publishAssembled (configOf cfg 0) snapId (Coordinator.shardMap shards)) (s.world 0))
        collecting := Function.update s.collecting snapId none }
    | _ => none
  | .other i memory files =>
    if s.leavesPacks files then
      some { s with disk := { s.disk with files := files }, memory := Function.update s.memory i memory }
    else none

/-- What a rank would read from a pack of a snapshot in progress is what it wrote, and
what it has read so far too. -/
structure Orderly (cfg : Nat → Config) (s : Assembling) : Prop where
  bounded : ∀ p body, s.disk.accepts p body = true → body.length < 2 ^ 64
  packs : ∀ id ∈ s.created, ∀ file, Recovery.isPack file = true → file.belongsTo id = true → ∀ e,
    Coordinator.shardOf s.disk.files id file = .ok e → file = packPath id e.rank ∧ s.wrote id e.rank = some e
  shards : ∀ id left shards, s.collecting id = some (left, shards) → id ∈ s.created ∧
    (∀ file ∈ left, Recovery.isPack file = true ∧ file.belongsTo id = true) ∧
      ∀ e ∈ shards, s.wrote id e.rank = some e
  ranks : ∀ id r e, s.wrote id r = some e → e.rank = r ∧ r < worldSize cfg ∧ id ∈ s.created
  saving : ∀ r p, s.saving r = some p → r < worldSize cfg ∧ p.snapId ∈ s.created ∧ s.wrote p.snapId r = none ∧
    p.entry.rank = r ∧ ∃ d blobs, Coordinator.packParts d blobs = .ok p.parts ∧ d.snapshotId = p.snapId ∧
      d.rank = p.entry

variable {cfg : Nat → Config} {s t : Assembling} {event : RankEvent} {ps : Processes Nat} {snapId : Uuid}
  {rank : Nat} {context : SnapshotContext} {tensors : List TensorData} {retained : Option RetainedBase}

omit [Zstd] [Xxh3] in
/-- Changes that make no pack of a snapshot in progress disturb nothing. -/
theorem Orderly.quiet (orderly : s.Orderly cfg) (ps : Processes Nat)
    (accepts : ps.disk.accepts = s.disk.accepts)
    (left : ∀ id ∈ s.created, ∀ file, Recovery.isPack file = true → file.belongsTo id = true →
      ps.disk.files.find? file = s.disk.files.find? file ∨
        ∀ e, Coordinator.shardOf ps.disk.files id file ≠ .ok e) :
    Orderly cfg { s with toProcesses := ps } where
  bounded p body := by
    simp only [accepts]
    exact orderly.bounded p body
  packs id known file pack own e read := by
    rcases left id known file pack own with same | unread
    · rw [Coordinator.shardOf_congr same] at read
      exact orderly.packs id known file pack own e read
    · exact absurd read (unread e)
  shards := orderly.shards
  ranks := orderly.ranks
  saving := orderly.saving

omit [Zstd] [Xxh3] in
theorem Orderly.unwritten {w : World} (orderly : s.Orderly cfg)
    (left : ∀ file, Recovery.isPack file = true → Coordinator.Unwritten file (s.world 0) w) :
    Orderly cfg { s with toProcesses := s.after 0 w } := by
  refine orderly.quiet _ (left (packPath 0 0) rfl).accepts fun id _ file pack _ => ?_
  exact (left file pack).file.imp_right fun gone e => Coordinator.shardOf_absent gone

theorem packOfSave_eq_ok {cfg : Config} {snapId : Uuid} {base : Option Snapshot} {tensors : List TensorData}
    {context : SnapshotContext} {w : World} {entry : RankEntry} {parts : List Bytes}
    (made : Coordinator.packOfSave cfg snapId base tensors context w = .ok (entry, parts)) :
    entry.rank = cfg.rank ∧ ∃ d blobs, Coordinator.packParts d blobs = .ok parts ∧ d.snapshotId = snapId ∧
      d.rank = entry := by
  simp only [Coordinator.packOfSave, Library.Outcome.bind_eq_ok, Library.Outcome.pure_eq_ok,
    Prod.mk.injEq] at made
  obtain ⟨processed, _, _, packed, rfl, rfl⟩ := made
  exact ⟨rfl, _, _, packed, rfl, rfl⟩

theorem readSave_eq_ok {cfg : Config} {snapId : Uuid} {tensors : List TensorData} {w : World} {m : Manifest}
    {save : PendingSave} (made : readSave cfg snapId tensors w = .ok (m, save)) :
    save.snapId = snapId ∧ save.entry.rank = cfg.rank ∧
      ∃ d blobs, Coordinator.packParts d blobs = .ok save.parts ∧ d.snapshotId = snapId ∧
        d.rank = save.entry := by
  simp only [readSave, Library.Outcome.bind_eq_ok] at made
  obtain ⟨m', _, made⟩ := made
  split at made
  · simp at made
  · simp only [Library.Outcome.bind_eq_ok, Library.Outcome.pure_eq_ok, Prod.mk.injEq] at made
    obtain ⟨⟨entry, parts⟩, packed, _, rfl⟩ := made
    exact ⟨rfl, packOfSave_eq_ok packed⟩

theorem Orderly.create (orderly : s.Orderly cfg) (taken : s.step cfg (.create snapId context) = some t) :
    t.Orderly cfg := by
  simp only [step] at taken
  split at taken
  · contradiction
  · rename_i new
    obtain rfl := Option.some.inj taken
    simp only [not_or, ne_eq, not_not] at new
    obtain ⟨new, bare⟩ := new
    have kept : ∀ file, Recovery.isPack file = true → Coordinator.Unwritten file (s.world 0)
        (finalState (Coordinator.createSnapshot (configOf cfg 0) snapId context) (s.world 0)) :=
          fun file pack =>
      (Coordinator.createSnapshot_unwritten pack).final ⟨.inl rfl, rfl⟩
    have quiet := orderly.unwritten kept
    refine ⟨quiet.bounded, fun id known file pack own e read => ?_, fun id left shards found => ?_,
      fun id r e wrote => ?_, fun r p saving => ?_⟩
    · rcases List.mem_cons.mp known with rfl | known
      · -- nothing was in the directory of the new snapshot
        have absent : s.disk.files.find? file = none := by
          by_contra present
          have named := s.disk.files.mem_names.mpr (Option.isSome_iff_ne_none.mpr present)
          have listed : file ∈ Storage.listSnapshot s.disk.files id := List.mem_filter.mpr ⟨named, own⟩
          rw [bare] at listed
          contradiction
        have gone := (kept file pack).file.elim (fun same => same.trans absent) fun gone => gone
        exact absurd read (Coordinator.shardOf_absent gone)
      · exact quiet.packs id known file pack own e read
    · obtain ⟨known, rest⟩ := quiet.shards id left shards found
      exact ⟨List.mem_cons_of_mem _ known, rest⟩
    · obtain ⟨own, small, known⟩ := quiet.ranks id r e wrote
      exact ⟨own, small, List.mem_cons_of_mem _ known⟩
    · obtain ⟨small, known, rest⟩ := quiet.saving r p saving
      exact ⟨small, List.mem_cons_of_mem _ known, rest⟩

theorem Orderly.read (orderly : s.Orderly cfg)
    (taken : s.step cfg (.read rank snapId tensors retained) = some t) :
    t.Orderly cfg := by
  simp only [step] at taken
  split at taken
  · rename_i meets
    obtain ⟨small, known, free, unwritten⟩ := meets
    split at taken
    · contradiction
    · rename_i m save made
      obtain rfl := Option.some.inj taken
      obtain ⟨same, own, packed⟩ := readSave_eq_ok made
      have quiet := orderly.quiet (s.after rank { s.world rank with manifest := m, retainedBase := retained })
        rfl fun _ _ _ _ _ => .inl rfl
      refine ⟨quiet.bounded, quiet.packs, quiet.shards, quiet.ranks, fun r p saving => ?_⟩
      by_cases here : r = rank
      · subst here
        obtain rfl : save = p := by simpa using saving
        subst same
        exact ⟨small, known, unwritten, own, packed⟩
      · exact quiet.saving r p (by simpa [here] using saving)
  · contradiction

/-- A rank's whole call is the two: it reads, and puts down one pack. -/
theorem saveRank_ok {cfg : Config} {w after : World}
    (ran : Coordinator.saveRank cfg snapId tensors w = .ok () after) :
    ∃ m save, readSave cfg snapId tensors w = .ok (m, save) ∧ after.manifest = m ∧
      after.disk = w.disk.change
        (.put (packPath snapId cfg.rank) (pad w.disk.pageSize save.parts.flatten)) := by
  simp only [Coordinator.saveRank, Library.Effect.bind_eq_ok, get_eq_ok] at ran
  obtain ⟨_, mid, reread, _, _, ⟨rfl, rfl⟩, ran⟩ := ran
  obtain ⟨m, read, rfl⟩ := Coordinator.reloadManifest_eq_ok.mp reread
  cases found : m.findSnapshot snapId with
  | none =>
    simp only [found] at ran
    contradiction
  | some snap =>
    simp only [found] at ran
    obtain ⟨entry, mid, saved, ran⟩ := Library.Effect.bind_eq_ok.mp ran
    obtain ⟨_, rfl⟩ := Library.Effect.pure_eq_ok.mp ran
    unfold bracket at saved
    split at saved
    · rename_i entry' s' wrote
      obtain ⟨rfl, rfl⟩ := EStateM.Result.ok.inj saved
      obtain ⟨_, parts, packed, disk, listed, _⟩ := Coordinator.saveRankTensors_spec.ok rfl wrote
      refine ⟨m, ⟨snapId, entry', parts⟩, ?_, listed, disk⟩
      simp only [readSave, Library.Outcome.bind_eq_ok]
      exact ⟨m, read, by simp only [found]; exact Library.Outcome.bind_eq_ok.mpr ⟨_, packed, rfl⟩⟩
    · contradiction

omit [Zstd] [Xxh3] in
/-- The pack is read for what was written, and nobody had read one in its place. -/
theorem Orderly.written [LawfulSerdeJson] {save : PendingSave} (orderly : s.Orderly cfg)
    (saving : s.saving rank = some save)
    (accepted : s.disk.accepts (packPath save.snapId rank) (pad s.disk.pageSize save.parts.flatten) = true) :
    Orderly cfg { s with
      disk := s.disk.change (.put (packPath save.snapId rank) (pad s.disk.pageSize save.parts.flatten))
      saving := Function.update s.saving rank none
      wrote := Function.update s.wrote save.snapId
        (Function.update (s.wrote save.snapId) rank (some save.entry)) } := by
  obtain ⟨small, known, unwritten, own, d, blobs, packed, named, entry⟩ := orderly.saving rank save saving
  have later : ∀ id r e, s.wrote id r = some e → Function.update s.wrote save.snapId
      (Function.update (s.wrote save.snapId) rank (some save.entry)) id r = some e := by
    intro id r e wrote
    by_cases same : id = save.snapId
    · subst same
      have other : r ≠ rank := by
        rintro rfl
        simp [unwritten] at wrote
      simpa [other] using wrote
    · simpa [same] using wrote
  refine ⟨orderly.bounded, fun id there file pack inside e read => ?_, fun id left shards found => ?_,
    fun id r e wrote => ?_, fun r p pending => ?_⟩
  · by_cases same : file = packPath save.snapId rank
    · subst same
      obtain rfl : save.snapId = id := by simpa using inside
      have fits := orderly.bounded _ _ accepted
      have stored : (s.disk.change (.put (packPath save.snapId rank)
          (pad s.disk.pageSize save.parts.flatten))).files.find? (packPath save.snapId rank) =
          some (pad s.disk.pageSize save.parts.flatten) := FileStore.find?_put_self
      have whole := Coordinator.shardOf_pack packed fits stored named
      obtain rfl : d.rank = e := Except.ok.inj (whole.symm.trans read)
      rw [entry, own]
      exact ⟨rfl, by simp⟩
    · have kept : (s.disk.change (.put (packPath save.snapId rank)
          (pad s.disk.pageSize save.parts.flatten))).files.find? file = s.disk.files.find? file :=
        FileStore.find?_put_of_ne same
      rw [Coordinator.shardOf_congr kept] at read
      obtain ⟨path, wrote⟩ := orderly.packs id there file pack inside e read
      exact ⟨path, later _ _ _ wrote⟩
  · obtain ⟨there, left, wrote⟩ := orderly.shards id left shards found
    exact ⟨there, left, fun e read => later _ _ _ (wrote e read)⟩
  · by_cases same : id = save.snapId
    · subst same
      by_cases here : r = rank
      · subst here
        obtain rfl : save.entry = e := by simpa using wrote
        exact ⟨own, small, known⟩
      · exact orderly.ranks _ r e (by simpa [here] using wrote)
    · exact orderly.ranks id r e (by simpa [same] using wrote)
  · by_cases here : r = rank
    · subst here
      simp at pending
    · obtain ⟨small', known', fresh, rest⟩ := orderly.saving r p (by simpa [here] using pending)
      refine ⟨small', known', ?_, rest⟩
      by_cases same : p.snapId = save.snapId
      · simpa [same, here] using same ▸ fresh
      · simpa [same] using fresh

theorem Orderly.write [LawfulSerdeJson] (orderly : s.Orderly cfg)
    (taken : s.step cfg (.write rank) = some t) :
    t.Orderly cfg := by
  simp only [step] at taken
  split at taken
  · contradiction
  · rename_i save saving
    unfold Storage.putParts Storage.put at taken
    simp only [Processes.world_disk] at taken
    by_cases accepted :
        s.disk.accepts (packPath save.snapId rank) (pad s.disk.pageSize save.parts.flatten) = true
    · simp only [accepted, if_true] at taken
      obtain rfl := Option.some.inj taken
      have written := orderly.written saving accepted
      exact ⟨written.bounded, written.packs, written.shards, written.ranks, written.saving⟩
    · simp only [accepted] at taken
      obtain rfl := Option.some.inj taken
      refine ⟨orderly.bounded, orderly.packs, orderly.shards, orderly.ranks, fun r p pending => ?_⟩
      by_cases here : r = rank
      · subst here
        simp at pending
      · exact orderly.saving r p (by simpa [here] using pending)

theorem Orderly.list (orderly : s.Orderly cfg) (taken : s.step cfg (.list snapId) = some t) :
    t.Orderly cfg := by
  simp only [step] at taken
  split at taken
  · rename_i known
    split at taken
    · contradiction
    · rename_i w reread
      obtain rfl := Option.some.inj taken
      have disk : w.disk = s.disk := by
        obtain ⟨m, _, rfl⟩ := Coordinator.reloadManifest_eq_ok.mp reread
        rfl
      have quiet := orderly.quiet (s.after 0 w) (by simp [disk]) fun _ _ _ _ _ => .inl (by simp [disk])
      refine ⟨quiet.bounded, quiet.packs, fun id left shards found => ?_, quiet.ranks, quiet.saving⟩
      by_cases same : id = snapId
      · subst same
        obtain ⟨rfl, rfl⟩ : Coordinator.packsOf s.disk.files id = left ∧ [] = shards := by simpa using found
        refine ⟨known, fun file there => ?_, by simp⟩
        obtain ⟨listed, pack⟩ := List.mem_filter.mp there
        exact ⟨pack, (List.mem_filter.mp listed).2⟩
      · exact quiet.shards id left shards (by simpa [same] using found)
  · contradiction

theorem Orderly.collect (orderly : s.Orderly cfg) (taken : s.step cfg (.collect snapId) = some t) :
    t.Orderly cfg := by
  simp only [step] at taken
  split at taken
  · rename_i file rest shards collecting
    obtain ⟨known, left, wrote⟩ := orderly.shards snapId _ _ collecting
    split at taken
    · obtain rfl := Option.some.inj taken
      refine ⟨orderly.bounded, orderly.packs, fun id left shards found => ?_, orderly.ranks, orderly.saving⟩
      by_cases same : id = snapId
      · subst same
        simp at found
      · exact orderly.shards id left shards (by simpa [same] using found)
    · rename_i shard read
      obtain rfl := Option.some.inj taken
      obtain ⟨pack, own⟩ := left file List.mem_cons_self
      refine ⟨orderly.bounded, orderly.packs, fun id left' shards' found => ?_, orderly.ranks, orderly.saving⟩
      by_cases same : id = snapId
      · subst same
        obtain ⟨rfl, rfl⟩ : rest = left' ∧ shards ++ [shard] = shards' := by simpa using found
        refine ⟨known, fun other there => left other (List.mem_cons_of_mem _ there), fun e there => ?_⟩
        rcases List.mem_append.mp there with before | now
        · exact wrote e before
        · obtain rfl := List.mem_singleton.mp now
          exact (orderly.packs id known file pack own e read).2
      · exact orderly.shards id left' shards' (by simpa [same] using found)
  · contradiction

theorem Orderly.publish (orderly : s.Orderly cfg) (taken : s.step cfg (.publish snapId) = some t) :
    t.Orderly cfg := by
  simp only [step] at taken
  split at taken
  · rename_i shards collecting
    obtain rfl := Option.some.inj taken
    have quiet := orderly.unwritten (w := finalState (Coordinator.publishAssembled (configOf cfg 0) snapId
      (Coordinator.shardMap shards)) (s.world 0)) fun file pack =>
        (Coordinator.publishAssembled_unwritten pack).final ⟨.inl rfl, rfl⟩
    refine ⟨quiet.bounded, quiet.packs, fun id left shards found => ?_, quiet.ranks, quiet.saving⟩
    by_cases same : id = snapId
    · subst same
      simp at found
    · exact quiet.shards id left shards (by simpa [same] using found)
  · contradiction

theorem Orderly.other {i : Nat} {memory : Memory} {files : Files} (orderly : s.Orderly cfg)
    (taken : s.step cfg (.other i memory files) = some t) : t.Orderly cfg := by
  simp only [step] at taken
  split at taken
  · rename_i leaves
    obtain rfl := Option.some.inj taken
    refine orderly.quiet ⟨{ s.disk with files := files }, Function.update s.memory i memory⟩ rfl
      fun id known file pack own => ?_
    by_cases absent : files.find? file = none
    · exact .inr fun e => Coordinator.shardOf_absent absent
    · have named := files.mem_names.mpr (Option.isSome_iff_ne_none.mpr absent)
      have meets := List.all_eq_true.mp (List.all_eq_true.mp leaves file named) id known
      simp only [pack, own, Bool.and_self, Bool.not_true, Bool.false_or, Bool.or_eq_true,
        decide_eq_true_eq, Bool.not_eq_true'] at meets
      refine meets.imp_right fun unread e read => ?_
      simp [read, Except.isOk, Except.toBool] at unread
  · contradiction

theorem Orderly.step [LawfulSerdeJson] (orderly : s.Orderly cfg) (taken : s.step cfg event = some t) :
    t.Orderly cfg := by
  cases event with
  | create snapId context => exact orderly.create taken
  | read rank snapId tensors retained => exact orderly.read taken
  | write rank => exact orderly.write taken
  | list snapId => exact orderly.list taken
  | collect snapId => exact orderly.collect taken
  | publish snapId => exact orderly.publish taken
  | other i memory files => exact orderly.other taken

omit [Zstd] [Xxh3] [SerdeJson] in
/-- As many shards as ranks, each some rank's own: every rank's. -/
theorem shardMap_exact {shards : List RankEntry} {wrote : Nat → Option RankEntry} {n : Nat}
    (own : ∀ e ∈ shards, wrote e.rank = some e) (ranks : ∀ r e, wrote r = some e → e.rank = r ∧ r < n)
    (enough : n ≤ (Coordinator.shardMap shards).size) (r : Nat) :
    (Coordinator.shardMap shards)[r]? = wrote r ∧ ((wrote r).isSome ↔ r < n) := by
  have sound : ∀ r e, (Coordinator.shardMap shards)[r]? = some e → wrote r = some e := by
    intro r e found
    obtain ⟨shard, there, same⟩ := List.mem_map.mp (Library.Tables.mem_of_getElem?_ofList found)
    obtain ⟨rfl, rfl⟩ := Prod.mk.inj same
    exact own shard there
  have within : (Coordinator.shardMap shards).keys.toFinset ⊆ Finset.range n := by
    intro r there
    obtain ⟨e, found⟩ := Option.isSome_iff_exists.mp (Std.ExtTreeMap.mem_iff_isSome_getElem?.mp
      (Std.ExtTreeMap.mem_keys.mp (List.mem_toFinset.mp there)))
    exact Finset.mem_range.mpr (ranks r e (sound r e found)).2
  have full : (Coordinator.shardMap shards).keys.toFinset = Finset.range n := by
    refine Finset.eq_of_subset_of_card_le within ?_
    rw [Finset.card_range, List.toFinset_card_of_nodup Std.ExtTreeMap.nodup_keys, Std.ExtTreeMap.length_keys]
    exact enough
  by_cases small : r < n
  · have there : r ∈ (Coordinator.shardMap shards).keys := by
      rw [← List.mem_toFinset, full]
      exact Finset.mem_range.mpr small
    obtain ⟨e, found⟩ := Option.isSome_iff_exists.mp (Std.ExtTreeMap.mem_iff_isSome_getElem?.mp
      (Std.ExtTreeMap.mem_keys.mp there))
    simp [found, sound r e found, small]
  · have silent : wrote r = none := by
      by_contra spoke
      obtain ⟨e, wrote⟩ := Option.ne_none_iff_exists'.mp spoke
      exact small (ranks r e wrote).2
    have absent : (Coordinator.shardMap shards)[r]? = none := by
      by_contra there
      obtain ⟨e, found⟩ := Option.ne_none_iff_exists'.mp there
      simp [sound r e found] at silent
    rw [silent, absent]
    simpa using small

/-- A rank's pack is missing, cut short, or another snapshot's. -/
inductive Fault (files : Files) (snapId : Uuid) (rank : Nat) : Prop where
  | missing (absent : files.find? (packPath snapId rank) = none)
  | truncated (d : PackDescriptor) (blobs parts : List Bytes) (page kept : Nat)
      (made : Coordinator.packParts d blobs = .ok parts) (fits : (pad page parts.flatten).length < 2 ^ 64)
      (short : kept < parts.flatten.length)
      (stored : files.find? (packPath snapId rank) = some (parts.flatten.take kept))
  | foreign (d : PackDescriptor) (blobs parts : List Bytes) (page : Nat)
      (made : Coordinator.packParts d blobs = .ok parts) (fits : (pad page parts.flatten).length < 2 ^ 64)
      (stored : files.find? (packPath snapId rank) = some (pad page parts.flatten))
        (other : d.snapshotId ≠ snapId)

omit [Zstd] [Xxh3] in
theorem Fault.unread [LawfulSerdeJson] {files : Files} (fault : Fault files snapId rank) (e : RankEntry) :
    Coordinator.shardOf files snapId (packPath snapId rank) ≠ .ok e := by
  cases fault with
  | missing absent => exact Coordinator.shardOf_absent absent
  | truncated d blobs parts page kept made fits short stored =>
    exact Coordinator.shardOf_truncated made fits short stored
  | foreign d blobs parts page made fits stored other =>
      exact Coordinator.shardOf_foreign made fits stored other

omit [Zstd] [Xxh3] in
/-- A snapshot is only put together from packs that are all there. -/
theorem Orderly.unfinished (orderly : s.Orderly cfg) (known : snapId ∈ s.created)
    (small : rank < worldSize cfg)
    (unread : ∀ e, Coordinator.shardOf s.disk.files snapId (packPath snapId rank) ≠ .ok e) (m m' : Manifest) :
    Coordinator.finalized (configOf cfg 0) s.disk.files snapId m ≠ .ok m' := by
  intro made
  simp only [Coordinator.finalized, Coordinator.collectRankShards, Library.Outcome.bind_eq_ok,
    Library.Outcome.map_eq_ok] at made
  obtain ⟨_, ⟨shards, read, rfl⟩, made⟩ := made
  have pairs := Library.Outcome.mapM_eq_ok.mp read
  have own : ∀ e ∈ shards, Coordinator.shardOf s.disk.files snapId (packPath snapId e.rank) = .ok e ∧
      s.wrote snapId e.rank = some e := by
    intro e there
    obtain ⟨file, listed, read⟩ := Library.Outcome.exists_item pairs there
    obtain ⟨inside, pack⟩ := List.mem_filter.mp listed
    obtain ⟨rfl, wrote⟩ := orderly.packs snapId known file pack (List.mem_filter.mp inside).2 e read
    exact ⟨read, wrote⟩
  obtain ⟨whole, written⟩ := shardMap_exact (fun e there => (own e there).2)
    (fun r e wrote => ⟨(orderly.ranks snapId r e wrote).1, (orderly.ranks snapId r e wrote).2.1⟩)
    (Coordinator.assemble_eq_ok made).1 rank
  obtain ⟨e, wrote⟩ := Option.isSome_iff_exists.mp (written.mpr small)
  rw [wrote] at whole
  obtain ⟨shard, there, same⟩ := List.mem_map.mp (Library.Tables.mem_of_getElem?_ofList whole)
  obtain ⟨rfl, rfl⟩ := Prod.mk.inj same
  exact unread shard (own shard there).1

/-- The list as storage has it; where that does not read, the one in memory. -/
def reread (files : Files) (m : Manifest) : Manifest := (Coordinator.reloaded true files m).toOption.getD m

omit [Zstd] [Xxh3] in
/-- A finalize that cannot put the snapshot together re-reads the list and changes
nothing. -/
theorem finalizeSnapshot_refused {cfg : Config} {w : World}
    (unfinished : ∀ m m', Coordinator.finalized cfg w.disk.files snapId m ≠ .ok m') :
    ∃ e after, Coordinator.finalizeSnapshot cfg snapId w = .error e after ∧ after.disk = w.disk ∧
      after.manifest = reread w.disk.files w.manifest := by
  have spec : Triple (fun s => s = w) (Coordinator.finalizeSnapshot cfg snapId) (fun _ _ => False)
      fun _ after => after.disk = w.disk ∧ after.manifest = reread w.disk.files w.manifest := by
    refine Triple.bind (fun _ s => ∃ m, Coordinator.reloaded true w.disk.files w.manifest = .ok m ∧
      s = { w with manifest := m }) ?_ fun _ => ?_
    · refine Triple.get_bind_of ?_
      cases read : Coordinator.reloaded true w.disk.files w.manifest with
      | error e =>
        exact Triple.returning_error rfl fun s same => by simp [same, reread, read, Except.toOption]
      | ok m => exact Triple.returning_ok rfl (Triple.modified fun s same => ⟨m, rfl, by rw [same]⟩)
    · rintro s ⟨m, read, rfl⟩
      suffices go : Triple (fun s => s = { w with manifest := m }) _ _ _ from go _ rfl
      refine Triple.get_bind_of ?_
      cases made : Coordinator.finalized cfg w.disk.files snapId m with
      | error e =>
        exact Triple.returning_error rfl fun s same => by simp [same, reread, read, Except.toOption]
      | ok m' => exact absurd made (unfinished m m')
  have outcome := spec w rfl
  cases ran : Coordinator.finalizeSnapshot cfg snapId w with
  | ok u after => simp [ran] at outcome
  | error e after =>
    rw [ran] at outcome
    exact ⟨e, after, rfl, outcome⟩

/-- Nothing is in progress. -/
structure Idle (s : Assembling) : Prop where
  saving : ∀ r, s.saving r = none
  collecting : ∀ id, s.collecting id = none
  created : s.created = []
  wrote : ∀ id r, s.wrote id r = none

/-- What a finalize that returns leaves: the snapshot is listed with every rank's entry and
no other, in memory and, if the list was in order, on record; or retention had it leave. -/
structure Listed (cfg : Nat → Config) (s : Assembling) (snapId : Uuid) (after : World) : Prop where
  exact : ∀ snap, after.manifest.findSnapshot snapId = some snap → snap.finalized = true ∧
    (∀ rank, snap.ranks[rank]? = s.wrote snapId rank ∧
      ((s.wrote snapId rank).isSome ↔ rank < worldSize cfg)) ∧
    (Coordinator.Filed (s.memory 0).manifest snapId → ManifestIo.ListedOn after.disk.files snap)
  evicted : after.manifest.findSnapshot snapId = none → ∃ shards m steps,
    Coordinator.assemble (configOf cfg 0) snapId shards (s.memory 0).manifest = .ok m ∧
      Coordinator.readPins s.disk.files = .ok steps ∧
        ∃ gone ∈ (Retention.retain (m.syncPins steps)).2, gone.id = snapId

/-- A snapshot filled in has every rank's entry and no other, and that is how a finalize
that returns lists it. Where a rank's pack is missing, cut short or another snapshot's,
the finalize fails, storage is as it was, and the snapshot stays listed as it was. -/
theorem assembled_exactly [LawfulSerdeJson] {start : Assembling} (idle : start.Idle)
    (bounded : ∀ p body, start.disk.accepts p body = true → body.length < 2 ^ 64)
    (run : Reaches (step cfg) (fun _ _ => True) start s) :
    (∀ snapId shards m, s.collecting snapId = some ([], shards) →
      Coordinator.assemble (configOf cfg 0) snapId (Coordinator.shardMap shards)
        (s.memory 0).manifest = .ok m →
      ∃ snap, m.findSnapshot snapId = some snap ∧ snap.finalized = true ∧ ∀ rank,
        snap.ranks[rank]? = s.wrote snapId rank ∧ ((s.wrote snapId rank).isSome ↔ rank < worldSize cfg)) ∧
    (∀ snapId shards after, s.collecting snapId = some ([], shards) →
      Coordinator.publishAssembled (configOf cfg 0) snapId (Coordinator.shardMap shards) (s.world 0) =
        .ok () after → Listed cfg s snapId after) ∧
    ∀ snapId rank, snapId ∈ s.created → rank < worldSize cfg → Fault s.disk.files snapId rank →
      ∃ e after, Coordinator.finalizeSnapshot (configOf cfg 0) snapId (s.world 0) = .error e after ∧
        after.disk = s.disk ∧ after.manifest = reread s.disk.files (s.memory 0).manifest ∧
        ∀ snap, (reread s.disk.files (s.memory 0).manifest).findSnapshot snapId = some snap →
          snap.finalized = false → ∃ kept, after.manifest.findSnapshot snapId = some kept ∧
            kept.finalized = false ∧ kept.ranks = snap.ranks := by
  have orderly : s.Orderly cfg := by
    refine run.invariant _ ⟨bounded, ?_, ?_, ?_, ?_⟩ fun t event u orderly _ taken => orderly.step taken
    · simp [idle.created]
    · simp [idle.collecting]
    · simp [idle.wrote]
    · simp [idle.saving]
  have exact : ∀ snapId shards m, s.collecting snapId = some ([], shards) →
      Coordinator.assemble (configOf cfg 0) snapId (Coordinator.shardMap shards)
        (s.memory 0).manifest = .ok m →
      ∀ rank, (Coordinator.shardMap shards)[rank]? = s.wrote snapId rank ∧
        ((s.wrote snapId rank).isSome ↔ rank < worldSize cfg) := by
    intro snapId shards m collected made rank
    obtain ⟨_, _, own⟩ := orderly.shards snapId _ _ collected
    exact shardMap_exact own (fun r e wrote =>
      ⟨(orderly.ranks snapId r e wrote).1, (orderly.ranks snapId r e wrote).2.1⟩)
      (Coordinator.assemble_eq_ok made).1 rank
  refine ⟨fun snapId shards m collected made => ?_, fun snapId shards after collected ran => ?_,
    fun snapId rank known small fault => ?_⟩
  · obtain ⟨_, _, filled⟩ := Coordinator.findSnapshot_assemble (w := s.world 0) made
    exact ⟨_, filled, rfl, exact snapId shards m collected made⟩
  · obtain ⟨m, made, published⟩ := Coordinator.publishAssembled_published ran
    refine ⟨fun snap listed => ?_, fun none => ?_⟩
    · obtain ⟨done, ranks, recorded⟩ := published.listed snap listed
      exact ⟨done, ranks ▸ exact snapId shards m collected made, recorded⟩
    · obtain ⟨steps, read, gone⟩ := published.evicted none
      exact ⟨_, m, steps, made, read, gone⟩
  · obtain ⟨e, after, refused, disk, manifest⟩ := finalizeSnapshot_refused (w := s.world 0)
      fun m m' => orderly.unfinished known small fault.unread m m'
    refine ⟨e, after, refused, disk, manifest, fun snap listed begun => ⟨snap, ?_, begun, rfl⟩⟩
    rw [manifest]
    exact listed

end Assembling

namespace Assembling
namespace TwoRanks

def config (rank : Nat) : Config := { Coordinator.OneFull.config with worldSize := 2, rank := rank }

def listing : Manifest :=
  { Manifest.default with snapshots :=
    [{ Coordinator.emptyFull 1 100 false with ranks := ∅, finalized := false }] }

def describing (rank : Nat) : PackDescriptor :=
  ⟨1, 100, 0, none, ∅, .none, 2, Coordinator.rankEntryOf rank (packPath 1 rank) []⟩

/-- The list once both ranks are filled in. -/
def filled : Manifest :=
  let ranks := Coordinator.shardMap [(describing 0).rank, (describing 1).rank]
  { Manifest.default with
    snapshots := [{ Coordinator.emptyFull 1 100 false with ranks := ranks }], ranksWritten := {1} }

abbrev serde : SerdeJson :=
  JsonText.serde (fun _ => []) [ManifestIo.indexOf listing, ManifestIo.indexOf filled]
    [⟨1, Coordinator.shardMap [(describing 0).rank, (describing 1).rank]⟩] [describing 0, describing 1] []

/-- A new store that two ranks have open. -/
def opened : Assembling where
  disk := ⟨.empty, [], 0, fun _ body => decide (body.length < 2 ^ 64), fun _ => true⟩
  memory _ := ⟨.default, none, .default⟩
  saving _ := none
  collecting _ := none
  created := []
  wrote _ _ := none

/-- Rank 1 has written, rank 0 has read and is about to. -/
def early : List RankEvent := [.create 1 ⟨100, 0, ∅⟩, .read 0 1 [] none, .read 1 1 [] none, .write 1]

def late : List RankEvent := early ++ [.write 0, .list 1, .collect 1, .collect 1]

def reached (events : List RankEvent) : Option Assembling :=
  @run _ _ (@Assembling.step Linked.zstd Linked.xxh3 serde config) (fun _ _ => true) opened events

end TwoRanks

/-- Rank 0 finalizes once both ranks have written, and too early. -/
theorem assembled_exactly_twoRanks :
    let _ := Linked.zstd
    let _ := Linked.xxh3
    let _ := TwoRanks.serde
    (∃ s shards after snap, TwoRanks.reached TwoRanks.late = some s ∧ s.collecting 1 = some ([], shards) ∧
      Coordinator.publishAssembled (configOf TwoRanks.config 0) 1 (Coordinator.shardMap shards) (s.world 0) =
        .ok () after ∧
      after.manifest.findSnapshot 1 = some snap ∧ snap.finalized = true ∧
      (∀ rank, snap.ranks[rank]? = s.wrote 1 rank ∧ ((s.wrote 1 rank).isSome ↔ rank < 2)) ∧
      ManifestIo.ListedOn after.disk.files snap) ∧
    ∃ s e after snap, TwoRanks.reached TwoRanks.early = some s ∧
      Coordinator.finalizeSnapshot (configOf TwoRanks.config 0) 1 (s.world 0) = .error e after ∧
      after.disk = s.disk ∧ after.manifest.findSnapshot 1 = some snap ∧ snap.finalized = false ∧
        snap.ranks = ∅ := by
  intro zstd xxh3 serde
  have : LawfulSerdeJson :=
    JsonText.serde_lawful _ (by decide +kernel) (by simp) (by decide +kernel) (by simp)
  have idle : TwoRanks.opened.Idle := ⟨fun _ => rfl, fun _ => rfl, rfl, fun _ _ => rfl⟩
  have bounded : ∀ p body, TwoRanks.opened.disk.accepts p body = true → body.length < 2 ^ 64 :=
    fun _ _ small => of_decide_eq_true small
  have reach : ∀ events s, TwoRanks.reached events = some s →
      Reaches (step TwoRanks.config) (fun _ _ => True) TwoRanks.opened s :=
    fun events s ran => reaches_of_run .refl (fun _ _ _ => trivial) ran
  have whole : (TwoRanks.reached TwoRanks.late).bind (fun s => (s.collecting 1).map fun p =>
      let act := Coordinator.publishAssembled (configOf TwoRanks.config 0) 1 (Coordinator.shardMap p.2)
      (p.1, (s.memory 0).manifest.snapshots, decide (1 ∈ (s.memory 0).manifest.ranksWritten),
        returns act (s.world 0),
        ((finalState act (s.world 0)).manifest.findSnapshot 1).isSome)) =
          some ([], TwoRanks.listing.snapshots, false, true, true) := by
    decide +kernel
  have part : (TwoRanks.reached TwoRanks.early).map (fun s => (decide (1 ∈ s.created),
      s.disk.files.find? (packPath 1 0), (reread s.disk.files (s.memory 0).manifest).snapshots)) =
        some (true, none, TwoRanks.listing.snapshots) := by
    decide +kernel
  constructor
  · obtain ⟨s, ran, whole⟩ := Option.bind_eq_some_iff.mp whole
    obtain ⟨⟨left, shards⟩, collected, whole⟩ := Option.map_eq_some_iff.mp whole
    simp only [Prod.mk.injEq, decide_eq_false_iff_not] at whole
    obtain ⟨rfl, list, unwritten, returned, there⟩ := whole
    have published := ok_finalState returned
    obtain ⟨snap, listed⟩ := Option.isSome_iff_exists.mp there
    have filed : Coordinator.Filed (s.memory 0).manifest 1 := by
      refine ⟨?_, ?_, unwritten⟩
      · rw [list]
        simp [Distinct, TwoRanks.listing]
      · rw [list]
        simp [TwoRanks.listing, Snapshot.filesOf]
    obtain ⟨done, exact, recorded⟩ :=
      ((assembled_exactly idle bounded (reach _ s ran)).2.1 1 shards _ collected published).exact snap listed
    exact ⟨s, shards, _, snap, ran, collected, published, listed, done, exact, recorded filed⟩
  · obtain ⟨s, ran, part⟩ := Option.map_eq_some_iff.mp part
    obtain ⟨known, part⟩ := Prod.mk.inj part
    obtain ⟨absent, stored⟩ := Prod.mk.inj part
    obtain ⟨e, after, refused, disk, _, kept⟩ := (assembled_exactly idle bounded (reach _ s ran)).2.2 1 0
      (of_decide_eq_true known) (by decide) (.missing absent)
    rw [Manifest.findSnapshot, stored] at kept
    obtain ⟨snap, listed, begun, ranks⟩ := kept _ rfl rfl
    exact ⟨s, e, after, snap, ran, refused, disk, listed, begun, ranks⟩

end Assembling
end Moonclip
