import Moonclip.NewestKept
import Moonclip.Ranks

/-! What a call that fails leaves in memory. The snapshot is listed and retention has
chosen before the write that may fail, and nobody takes either back. -/
namespace Moonclip
open Library.Effect Library.Files

namespace Retention
variable {m m' : Manifest}

theorem capFulls_bare {keep : List Uuid} {maxFull : Nat} {snapshots : List Snapshot} :
    (capFulls keep maxFull).evict (snapshots.map Snapshot.bare) =
      (((capFulls keep maxFull).evict snapshots).1.map Snapshot.bare,
        ((capFulls keep maxFull).evict snapshots).2.map Snapshot.bare) := by
  refine Library.Eviction.Policy.evict_map (fun snapshots => ?_) (fun snapshots => ?_) snapshots
  · have fulls := filter_bare (p := Snapshot.isFull) (fun _ => rfl) snapshots
    simp only [capFulls, fulls, List.length_map]
  · have group : ∀ id, groupIds (snapshots.map Snapshot.bare) id = groupIds snapshots id := by
      intro id
      have members := filter_bare (p := fun s => s.id == id || s.baseSnapshotId == some id)
        (fun _ => rfl) snapshots
      simp only [groupIds, members, List.map_map]
      rfl
    have blind : removableFull keep ∘ Snapshot.bare = removableFull keep := rfl
    simp only [capFulls, List.find?_map, blind, Option.map_map]
    cases snapshots.find? (removableFull keep) with
    | none => rfl
    | some full =>
      simp only [Option.map_some, Function.comp_def, group]
      rfl

theorem capTotal_bare {keep : List Uuid} {maxTotal : Nat} {snapshots : List Snapshot} :
    (capTotal keep maxTotal).evict (snapshots.map Snapshot.bare) =
      (((capTotal keep maxTotal).evict snapshots).1.map Snapshot.bare,
        ((capTotal keep maxTotal).evict snapshots).2.map Snapshot.bare) := by
  refine Library.Eviction.Policy.evict_map (fun snapshots => ?_) (fun snapshots => ?_) snapshots
  · have finalized := filter_bare (p := (·.finalized)) (fun _ => rfl) snapshots
    simp only [capTotal, finalized, List.length_map]
  · have finalized := filter_bare (p := (·.finalized)) (fun _ => rfl) snapshots
    have blind : ∀ newest, removable keep (snapshots.map Snapshot.bare) newest ∘ Snapshot.bare =
        removable keep snapshots newest := by
      intro newest
      funext s
      simp only [removable, Function.comp_apply, List.any_map]
      rfl
    simp only [capTotal, newest?_bare, finalized]
    cases newest? snapshots with
    | none => rfl
    | some newest =>
      have same : newest.bare.id = newest.id := rfl
      simp only [Option.map_some, Option.bind_some, List.find?_map, same, blind, Option.map_map]
      cases (snapshots.filter (·.finalized)).find? (removable keep snapshots newest.id) with
      | none => rfl
      | some candidate => rfl

/-- What stays does not depend on what the snapshots hold. -/
theorem retain_bare (limits : m.retention = m'.retention) (lineage : m.lineage = m'.lineage)
    (same : m.snapshots.map Snapshot.bare = m'.snapshots.map Snapshot.bare) :
    (retain m).1.snapshots.map Snapshot.bare = (retain m').1.snapshots.map Snapshot.bare := by
  have protects : m.protectedSnapshotIds = m'.protectedSnapshotIds := by
    rw [← protected_bare (m := m), ← protected_bare (m := m'), same]
    simp only [Manifest.protectedSnapshotIds, Manifest.rollbackSnapshotIds, lineage]
  have step : ∀ m : Manifest, (retain m).1.snapshots.map Snapshot.bare =
      ((capTotal m.protectedSnapshotIds m.retention.effectiveTotalCap).evict
        ((capFulls m.protectedSnapshotIds m.retention.maxFullSnapshots).evict
          (m.snapshots.map Snapshot.bare)).1).1 := by
    intro m
    simp only [retain, capFulls_bare, capTotal_bare]
  rw [step m, step m', same, protects, limits]

end Retention

namespace Coordinator

section
variable [SerdeJson] {w after : World} {m : Manifest} {e : MoonclipError}

/-- The list retention comes to; one whose pins do not read stays as it is. -/
def settledOn (files : Files) (m : Manifest) : List Snapshot :=
  match readPins files with
  | .error _ => m.snapshots
  | .ok steps => (Retention.retain (m.syncPins steps)).1.snapshots

theorem persist_list : Triple (fun s => s.manifest.snapshots = m.snapshots) ManifestIo.persist
    (fun _ s => s.manifest.snapshots = m.snapshots) fun _ s => s.manifest.snapshots = m.snapshots := by
  intro s same
  refine Triple.weaken (ManifestIo.Recorded s) ManifestIo.persist_recorded (fun _ => id)
    (fun _ after left => ?_) (fun _ after left => ?_) s (ManifestIo.Recorded.refl s)
  all_goals
    obtain ⟨_, written⟩ := left.manifest
    rw [written]
    exact same

/-- The list is settled before it is written, and stays so if the write fails. -/
theorem applyRetention_settled : Triple (fun s => s = w) applyRetention
    (fun _ s => s.manifest.snapshots = settledOn w.disk.files w.manifest)
    fun _ s => s.manifest.snapshots = settledOn w.disk.files w.manifest := by
  refine Triple.get_bind_of ?_
  simp only [settledOn]
  cases read : readPins w.disk.files with
  | error e =>
    refine Triple.returning_error rfl fun s start => ?_
    rw [start]
  | ok steps =>
    refine Triple.returning_ok rfl (Triple.get_bind_of ?_)
    refine Triple.bind (fun _ s => s.manifest.snapshots =
      (Retention.retain (w.manifest.syncPins steps)).1.snapshots) (Triple.modified fun s start =>
        rfl) fun _ => ?_
    exact Triple.bind _ (persist_list (m := (Retention.retain (w.manifest.syncPins steps)).1))
      fun _ => Triple.pure fun _ same => same

theorem settledOn_congr {files files' : Files} (same : files'.find? .pinsJson = files.find? .pinsJson) :
    settledOn files' m = settledOn files m := by
  simp only [settledOn, readPins, same]

variable [Zstd] [Xxh3] {cfg : Config} {snapId : Uuid} {tensors : List TensorData}
  {base : Option Snapshot} {context : SnapshotContext}

/-- The list with the save's own snapshot behind it. -/
def pushed (cfg : Config) (snapId : Uuid) (base : Option Snapshot) (context : SnapshotContext)
    (entry : RankEntry) (m : Manifest) : Manifest :=
  { m with snapshots := m.snapshots ++ [snapshotOf cfg snapId base context entry] }

/-- What a save that fails leaves in memory. -/
def SaveLeft (cfg : Config) (snapId : Uuid) (base : Option Snapshot) (tensors : List TensorData)
    (context : SnapshotContext) (w after : World) : Prop :=
  match packWritten cfg snapId base tensors context w with
  | false => after.manifest.snapshots = w.manifest.snapshots
  | true => ∃ entry, after.manifest.snapshots =
      settledOn w.disk.files (pushed cfg snapId base context entry w.manifest)

theorem recordSave_left : Triple (fun s => s = w) (recordSave cfg snapId base tensors context)
    (fun _ _ => True) fun _ after => SaveLeft cfg snapId base tensors context w after := by
  refine Triple.bind (fun entry s => packWritten cfg snapId base tensors context w = true ∧
      s.manifest = w.manifest ∧ s.disk.files.find? .pinsJson = w.disk.files.find? .pinsJson) ?_
        fun entry => ?_
  · refine Triple.weaken _ saveRankTensors_spec (fun _ same => same) (fun entry s left => ?_)
      fun _ s left => ?_
    · obtain ⟨written, parts, _, disk, listed, _⟩ := left
      refine ⟨written, listed, ?_⟩
      simp [disk, Change.apply, packPath]
    · obtain ⟨unwritten, _, listed, _⟩ := left
      simp only [SaveLeft, unwritten, listed]
  · intro s kept
    obtain ⟨written, listed, pins⟩ := kept
    suffices go : Triple (fun s' => s' = s) _ _ _ from go s rfl
    refine Triple.bind (fun _ s' => s'.manifest = pushed cfg snapId base context entry w.manifest ∧
        s'.disk = s.disk) (Triple.modified fun s' same => ?_) fun _ => ?_
    · subst same
      simp [pushed, listed]
    · intro s' kept'
      obtain ⟨listed', disk⟩ := kept'
      refine Triple.weaken _ applyRetention_settled (fun _ same => same) (fun _ _ _ => trivial)
        (fun _ after left => ?_) s' rfl
      simp only [SaveLeft, written]
      have same : s'.disk.files.find? .pinsJson = w.disk.files.find? .pinsJson := by rw [disk, pins]
      exact ⟨entry, by rw [left, listed', settledOn_congr same]⟩

theorem saveSync_left : Triple (fun s => s = w) (saveSync cfg snapId tensors context) (fun _ _ => True)
    fun _ after =>
      SaveLeft cfg snapId (chooseBase w.manifest w.inFlight context.step) tensors context w after := by
  refine Triple.get_bind_of ?_
  extract_lets base pins
  refine Triple.bind (fun _ _ => True) (fun s start => ?_) fun evicted =>
    Triple.weaken _ (unlinkSnapshots_manifest (Q := fun _ => True)) (fun _ _ => trivial)
      (fun _ _ _ => trivial)
      fun _ _ no => no
  subst start
  unfold bracket
  have left := @recordSave_left _ { s with inFlight := s.inFlight.pin pins } _ _ cfg snapId tensors
    base context _ rfl
  cases ran : recordSave cfg snapId base tensors context { s with inFlight := s.inFlight.pin pins } with
  | ok evicted after => trivial
  | error e after =>
    rw [ran] at left
    exact left

omit [SerdeJson] [Zstd] [Xxh3] in
/-- Retention cannot give the list back in another order or with other contents. -/
theorem eq_of_bare {kept list : List Snapshot} {s : Snapshot} {flag : Snapshot → Bool}
    (new : ∀ t ∈ list, t.id ≠ s.id)
    (shrunk : kept.Sublist ((list ++ [s]).map fun t => { t with pinned := flag t }))
    (same : kept.map Snapshot.bare = list.map Snapshot.bare) : kept = list := by
  rw [List.map_append, List.sublist_append_iff] at shrunk
  obtain ⟨older, last, rfl, olders, lasts⟩ := shrunk
  have none : last = [] := by
    cases last with
    | nil => rfl
    | cons t rest =>
      obtain rfl : t = { s with pinned := flag s } := by simpa using lasts.subset List.mem_cons_self
      have listed : Snapshot.bare { s with pinned := flag s } ∈ list.map Snapshot.bare := by
        rw [← same]
        simp
      obtain ⟨u, there, alike⟩ := List.mem_map.mp listed
      exact absurd (congrArg Snapshot.id alike) (new u there)
  subst none
  rw [List.append_nil] at same ⊢
  have long : (list.map fun t => { t with pinned := flag t }).length ≤ older.length := by
    have := congrArg List.length same
    simp only [List.length_map] at this ⊢
    omega
  obtain rfl := olders.eq_of_length_le long
  rw [List.map_map, List.map_inj_left] at same
  conv_rhs => rw [← List.map_id list]
  refine List.map_congr_left fun t there => ?_
  have flagged : flag t = t.pinned := congrArg Snapshot.pinned (same t there)
  simp [flagged]

/-- Retention turns the save's own snapshot away, and changes nothing else. -/
def TurnedAway (cfg : Config) (snapId : Uuid) (context : SnapshotContext) (w : World) : Prop :=
  ∃ steps, readPins w.disk.files = .ok steps ∧
    (Retention.retain ((announced cfg snapId context w).syncPins steps)).1.snapshots.map Snapshot.bare =
      w.manifest.snapshots.map Snapshot.bare

theorem saveSync_keeps_iff (new : ∀ s ∈ w.manifest.snapshots, s.id ≠ snapId)
    (ran : saveSync cfg snapId tensors context w = .error e after) :
    after.manifest.snapshots = w.manifest.snapshots ↔
      packWritten cfg snapId (chooseBase w.manifest w.inFlight context.step) tensors context w = false ∨
        TurnedAway cfg snapId context w := by
  have left := @saveSync_left _ w _ _ cfg snapId tensors context w rfl
  rw [ran] at left
  simp only [SaveLeft] at left
  split at left
  · rename_i unwritten
    simp [left, unwritten]
  · rename_i written
    obtain ⟨entry, left⟩ := left
    rw [left, written]
    simp only [settledOn, TurnedAway, Bool.true_eq_false, false_or]
    cases read : readPins w.disk.files with
    | error e => simp [pushed]
    | ok steps =>
      have alike : (Retention.retain ((pushed cfg snapId (chooseBase w.manifest w.inFlight context.step)
            context entry w.manifest).syncPins steps)).1.snapshots.map Snapshot.bare =
          (Retention.retain ((announced cfg snapId context w).syncPins steps)).1.snapshots.map
            Snapshot.bare := by
        refine Retention.retain_bare (by simp [pushed, announced]) (by simp [pushed, announced]) ?_
        rw [Manifest.syncPins_bare, Manifest.syncPins_bare]
        simp [pushed, announced, Snapshot.bare, snapshotOf]
      constructor
      · intro same
        exact ⟨steps, rfl, alike.symm.trans (congrArg (List.map Snapshot.bare) same)⟩
      · rintro ⟨steps', found, same⟩
        obtain rfl := Except.ok.inj found
        obtain ⟨flag, flagged⟩ := Manifest.syncPins_eq_map (pushed cfg snapId
          (chooseBase w.manifest w.inFlight context.step) context entry w.manifest) steps
        have shrunk := Retention.retain_sublist (m := (pushed cfg snapId
          (chooseBase w.manifest w.inFlight context.step) context entry w.manifest).syncPins steps)
        rw [flagged] at shrunk
        exact eq_of_bare new shrunk (alike.trans same)

/-- What a finalize that fails leaves in memory. -/
def finalizeLeft (cfg : Config) (snapId : Uuid) (w : World) : List Snapshot :=
  match reloaded true w.disk.files w.manifest with
  | .error _ => w.manifest.snapshots
  | .ok m =>
    match finalized cfg w.disk.files snapId m with
    | .error _ => m.snapshots
    | .ok m => settledOn w.disk.files m

omit [Zstd] [Xxh3] in
theorem finalizeSnapshot_left : Triple (fun s => s = w) (finalizeSnapshot cfg snapId) (fun _ _ => True)
    fun _ after => after.manifest.snapshots = finalizeLeft cfg snapId w := by
  refine Triple.bind (fun _ s => ∃ m, reloaded true w.disk.files w.manifest = .ok m ∧
    s = { w with manifest := m }) ?_ fun _ => ?_
  · refine Triple.get_bind_of ?_
    cases read : reloaded true w.disk.files w.manifest with
    | error e =>
      refine Triple.returning_error rfl fun s start => ?_
      simp only [finalizeLeft, read, start]
    | ok m =>
      refine Triple.returning_ok rfl (Triple.modified fun s start => ?_)
      exact ⟨m, rfl, by rw [start]⟩
  · rintro s ⟨m, read, rfl⟩
    suffices go : Triple (fun s => s = { w with manifest := m }) _ _ _ from go _ rfl
    refine Triple.get_bind_of ?_
    simp only [finalizeLeft, read]
    cases made : finalized cfg w.disk.files snapId m with
    | error e =>
      refine Triple.returning_error rfl fun s start => ?_
      rw [start]
    | ok m' =>
      refine Triple.returning_ok rfl ?_
      refine Triple.bind (fun _ s => s = { w with manifest := m' })
        (Triple.modified fun s start => by rw [start]) fun _ => ?_
      refine Triple.bind (fun _ _ => True) ?_ fun evicted =>
        Triple.weaken _ (unlinkSnapshots_manifest (Q := fun _ => True)) (fun _ _ => trivial)
          (fun _ _ _ => trivial)
          fun _ _ no => no
      exact Triple.weaken _ applyRetention_settled (fun _ same => same) (fun _ _ _ => trivial)
        fun _ _ left => left

/-- The list in memory is the one storage reads back as, if it does, and the packs do not
make up the snapshot. -/
def FinalizeUndisturbed (cfg : Config) (snapId : Uuid) (w : World) : Prop :=
  ∀ m, reloaded true w.disk.files w.manifest = .ok m →
    m.snapshots = w.manifest.snapshots ∧ ∃ e, finalized cfg w.disk.files snapId m = .error e

/-- Memory lists what the finalize comes to as it is. No call gets there from a list that
has the snapshot still to be finalized. -/
def FinalizeForeseen (cfg : Config) (snapId : Uuid) (w : World) : Prop :=
  ∃ m m', reloaded true w.disk.files w.manifest = .ok m ∧ finalized cfg w.disk.files snapId m = .ok m' ∧
    settledOn w.disk.files m' = w.manifest.snapshots

omit [Zstd] [Xxh3] in
theorem finalizeSnapshot_keeps_iff (ran : finalizeSnapshot cfg snapId w = .error e after) :
    after.manifest.snapshots = w.manifest.snapshots ↔
      FinalizeUndisturbed cfg snapId w ∨ FinalizeForeseen cfg snapId w := by
  have left := @finalizeSnapshot_left _ w cfg snapId w rfl
  rw [ran] at left
  rw [left, finalizeLeft, FinalizeUndisturbed, FinalizeForeseen]
  cases reloaded true w.disk.files w.manifest with
  | error e => simp
  | ok m => cases made : finalized cfg w.disk.files snapId m <;> simp [made]

omit [Zstd] [Xxh3] in
/-- Retention sets flags and removes; it adds nothing. -/
theorem mem_settledOn {files : Files} {s : Snapshot} (there : s ∈ settledOn files m) :
    ∃ t ∈ m.snapshots, s.id = t.id ∧ s.finalized = t.finalized := by
  unfold settledOn at there
  split at there
  · exact ⟨s, there, rfl, rfl⟩
  · rename_i steps _
    obtain ⟨flag, flagged⟩ := Manifest.syncPins_eq_map m steps
    have there := Retention.retain_sublist.subset there
    rw [flagged] at there
    obtain ⟨t, listed, rfl⟩ := List.mem_map.mp there
    exact ⟨t, listed, rfl, rfl⟩

omit [Zstd] [Xxh3] in
/-- Once its ranks are filled in the snapshot is finalized, or gone. -/
theorem settledOn_finalized {files : Files} {m' : Manifest} {s : Snapshot} (distinct : Distinct m.snapshots)
    (made : finalized cfg files snapId m = .ok m') (there : s ∈ settledOn files m') (own : s.id = snapId) :
    s.finalized = true := by
  simp only [finalized, Library.Outcome.bind_eq_ok] at made
  obtain ⟨shards, _, made⟩ := made
  obtain ⟨_, before, t, after, listed, older, named, rfl⟩ := assemble_eq_ok made
  obtain ⟨u, there, same, done⟩ := mem_settledOn there
  rw [done]
  rcases List.mem_append.mp there with earlier | there
  · exact absurd (same.symm.trans own) (older u earlier)
  · rcases List.mem_cons.mp there with rfl | later
    · rfl
    · rw [Distinct, listed, List.map_append, List.map_cons] at distinct
      have apart := (List.nodup_cons.mp (List.nodup_append.mp distinct).2.1).1
      exact absurd (List.mem_map.mpr ⟨u, later, (same.symm.trans own).trans named.symm⟩) apart

omit [Zstd] [Xxh3] in
/-- Where memory is what storage says, a finalize that fails later than its packs
leaves the snapshot finalized, or takes it out. -/
theorem finalizeSnapshot_listed_iff {s : Snapshot} (ran : finalizeSnapshot cfg snapId w = .error e after)
    (read : reloaded true w.disk.files w.manifest = .ok m) (same : m.snapshots = w.manifest.snapshots)
    (distinct : Distinct w.manifest.snapshots) (there : s ∈ w.manifest.snapshots) (own : s.id = snapId)
    (begun : s.finalized = false) :
    after.manifest.snapshots = w.manifest.snapshots ↔
      ∃ e, finalized cfg w.disk.files snapId m = .error e := by
  rw [finalizeSnapshot_keeps_iff ran]
  constructor
  · rintro (undisturbed | ⟨m₀, m', again, made, kept⟩)
    · exact (undisturbed m read).2
    · obtain rfl : m = m₀ := Except.ok.inj (read.symm.trans again)
      rw [← kept] at there
      rw [← same] at distinct
      simp [settledOn_finalized distinct made there own] at begun
  · rintro failed
    refine .inl fun m₀ again => ?_
    obtain rfl : m = m₀ := Except.ok.inj (read.symm.trans again)
    exact ⟨same, failed⟩

omit [Zstd] [Xxh3] in
theorem persist_publishes : Triple (fun _ => True) ManifestIo.persist
    (fun _ s => ∃ text, SerdeJson.index.toVec (ManifestIo.indexOf s.manifest) = .ok text ∧
      s.disk.files.find? .manifestJson = some (Library.Codec.pad s.disk.pageSize text)) fun _ _ => True := by
  refine Triple.get_bind fun w₀ => ?_
  refine Triple.bind (fun _ _ => True)
    (Triple.weaken _ (@Triple.forM _ _ _ (fun _ => True) _ _ _ fun s _ => ?_)
    (fun _ _ => trivial) (fun _ _ held => held) fun _ _ held => held) fun _ => ?_
  · exact Triple.bind (fun _ _ => True) (Triple.returning (fun _ _ _ _ => trivial) fun _ _ _ _ => trivial)
      fun _ => Storage.put_spec (fun _ _ _ => trivial) fun _ _ _ => trivial
  · refine Triple.bind (fun _ _ => True) (Triple.modified fun _ _ => trivial) fun _ => ?_
    refine Triple.get_bind fun w₁ => ?_
    refine Triple.bind (fun text s => SerdeJson.index.toVec (ManifestIo.indexOf s.manifest) =
      .ok text) ?_ fun text => ?_
    · refine Triple.returning (fun text s made start => ?_) fun _ _ _ _ => trivial
      rw [start.1]
      exact Library.Outcome.mapError_eq_ok.mp made
    · exact Storage.put_spec (fun s made _ => ⟨text, made, by simp [Change.apply]⟩) fun _ _ _ => trivial

/-- A call that fails leaves the list alone exactly where it has not come to the push
or the assembly, and what it leaves is what the next persist publishes. -/
theorem failed_calls_keep_iff :
    (∀ (w after : World) (cfg : Config) (snapId : Uuid) (tensors : List TensorData)
      (context : SnapshotContext)
      (e : MoonclipError), (∀ s ∈ w.manifest.snapshots, s.id ≠ snapId) →
      saveSync cfg snapId tensors context w = .error e after →
      (after.manifest.snapshots = w.manifest.snapshots ↔
        packWritten cfg snapId (chooseBase w.manifest w.inFlight context.step) tensors context w = false ∨
          TurnedAway cfg snapId context w)) ∧
    (∀ (w after : World) (cfg : Config) (snapId : Uuid) (e : MoonclipError),
      finalizeSnapshot cfg snapId w = .error e after →
      (after.manifest.snapshots = w.manifest.snapshots ↔
        FinalizeUndisturbed cfg snapId w ∨ FinalizeForeseen cfg snapId w)) ∧
    (∀ (w after : World) (cfg : Config) (snapId : Uuid) (e : MoonclipError) (m : Manifest) (s : Snapshot),
      finalizeSnapshot cfg snapId w = .error e after → reloaded true w.disk.files w.manifest = .ok m →
      m.snapshots = w.manifest.snapshots → Distinct w.manifest.snapshots → s ∈ w.manifest.snapshots →
      s.id = snapId → s.finalized = false →
      (after.manifest.snapshots = w.manifest.snapshots ↔
        ∃ e, finalized cfg w.disk.files snapId m = .error e)) ∧
    ∀ w after : World, ManifestIo.persist w = .ok () after →
      after.manifest.snapshots = w.manifest.snapshots ∧
        ∃ text, SerdeJson.index.toVec (ManifestIo.indexOf after.manifest) = .ok text ∧
          after.disk.files.find? .manifestJson = some (Library.Codec.pad after.disk.pageSize text) := by
  refine ⟨fun w after cfg snapId tensors context e new ran => saveSync_keeps_iff new ran,
    fun w after cfg snapId e ran => finalizeSnapshot_keeps_iff ran, ?_, fun w after ran => ?_⟩
  · intro w after cfg snapId e m s ran read same distinct there own begun
    exact finalizeSnapshot_listed_iff ran read same distinct there own begun
  · exact ⟨(persist_list (m := w.manifest)).ok rfl ran, persist_publishes.ok trivial ran⟩

end
namespace FullDisk
open OneFull (config blank describing)

def stored (id : Uuid) (step : Nat) (base : Option Uuid) : Snapshot :=
  { emptyFull id step false with baseSnapshotId := base }

/-- Listed, and no rank has written to it. -/
def begun : Snapshot := { emptyFull 1 100 false with ranks := ∅, finalized := false }

def listing (snapshots : List Snapshot) (written : Finset Uuid) : Manifest :=
  ⟨3, 1, snapshots, config.retention, .default, written⟩

abbrev serde : SerdeJson :=
  JsonText.serde (fun _ => []) [ManifestIo.indexOf (listing [stored 1 100 none] {1}),
      ManifestIo.indexOf (listing [stored 1 100 none, stored 2 200 (some 1)] {1, 2}),
      ManifestIo.indexOf (listing [begun] ∅)]
    [⟨1, (emptyFull 1 100 false).ranks⟩, ⟨2, (emptyFull 2 200 false).ranks⟩]
    [describing 1 100, { describing 2 200 with baseSnapshotId := some 1 }] []

/-- A new store on a disk that takes what `accepts` says. -/
def opened (accepts : Path → Bytes → Bool) : World :=
  @finalState _ _ _
    (@Recovery.openStore serde Linked.xxh3 config
    ⟨fun dirs => dirs, fun _ => .refl _, fun entries => entries, fun _ => .refl _⟩)
    { blank with disk := { blank.disk with accepts := accepts } }

/-- The index no longer fits. -/
def full : World := opened fun p _ => p != .manifestJson

def failed : World := @finalState _ _ _ (@saveSync serde Linked.zstd Linked.xxh3 config 1 [] ⟨100, 0, ∅⟩) full

def freed : World := { failed with disk := { failed.disk with accepts := fun _ _ => true } }

def later : World := @finalState _ _ _ (@saveSync serde Linked.zstd Linked.xxh3 config 2 [] ⟨200, 0, ∅⟩) freed

def created : World := @finalState _ _ _ (@createSnapshot serde config 1 ⟨100, 0, ∅⟩) (opened fun _ _ => true)

end FullDisk

/-- The save fails and its snapshot is listed all the same; the next one puts both on
record. -/
theorem failed_save_published :
    let _ := Linked.zstd
    let _ := Linked.xxh3
    let _ := FullDisk.serde
    ∃ failed later e, saveSync OneFull.config 1 [] ⟨100, 0, ∅⟩ FullDisk.full = .error e failed ∧
      failed.manifest.snapshots ≠ FullDisk.full.manifest.snapshots ∧
      saveSync OneFull.config 2 [] ⟨200, 0, ∅⟩
        { failed with disk := { failed.disk with accepts := fun _ _ => true } } = .ok () later ∧
      ∃ s ∈ later.manifest.snapshots, s.id = 1 := by
  intro zstd xxh3 serde
  have ran : returns (saveSync OneFull.config 1 [] ⟨100, 0, ∅⟩) FullDisk.full = false ∧
      FullDisk.failed.manifest.snapshots ≠ FullDisk.full.manifest.snapshots ∧
      returns (saveSync OneFull.config 2 [] ⟨200, 0, ∅⟩) FullDisk.freed = true ∧
      ∃ s ∈ FullDisk.later.manifest.snapshots, s.id = 1 := by
    decide +kernel
  obtain ⟨failing, changed, saving, listed⟩ := ran
  obtain ⟨e, failing⟩ := exists_error failing
  exact ⟨FullDisk.failed, FullDisk.later, e, failing, changed, ok_finalState saving, listed⟩

/-- A save whose pack is refused, a finalize before its only rank has written, and a
persist of what they leave. -/
theorem failed_calls_keep_begun :
    let _ := Linked.zstd
    let _ := Linked.xxh3
    let _ := FullDisk.serde
    (∃ e after, saveSync OneFull.config 1 [] ⟨100, 0, ∅⟩
        (FullDisk.opened fun _ _ => false) = .error e after ∧
      (after.manifest.snapshots = (FullDisk.opened fun _ _ => false).manifest.snapshots ↔
        packWritten OneFull.config 1 (chooseBase
          (FullDisk.opened fun _ _ => false).manifest (FullDisk.opened fun _ _ => false).inFlight 100) []
            ⟨100, 0, ∅⟩ (FullDisk.opened fun _ _ => false) = false ∨
          TurnedAway OneFull.config 1 ⟨100, 0, ∅⟩ (FullDisk.opened fun _ _ => false))) ∧
    (∃ e after m, finalizeSnapshot OneFull.config 1 FullDisk.created = .error e after ∧
      (after.manifest.snapshots = FullDisk.created.manifest.snapshots ↔
        FinalizeUndisturbed OneFull.config 1 FullDisk.created ∨
          FinalizeForeseen OneFull.config 1 FullDisk.created) ∧
      (after.manifest.snapshots = FullDisk.created.manifest.snapshots ↔
        ∃ e, finalized OneFull.config FullDisk.created.disk.files 1 m = .error e)) ∧
    ∃ after, ManifestIo.persist FullDisk.created = .ok () after ∧
      after.manifest.snapshots = FullDisk.created.manifest.snapshots := by
  intro zstd xxh3 serde
  have ran : returns (saveSync OneFull.config 1 [] ⟨100, 0, ∅⟩)
        (FullDisk.opened fun _ _ => false) = false ∧
      (FullDisk.opened fun _ _ => false).manifest.snapshots = [] ∧
      returns (finalizeSnapshot OneFull.config 1) FullDisk.created = false ∧
      (reloaded true FullDisk.created.disk.files FullDisk.created.manifest).toOption.map
        (·.snapshots) = some [FullDisk.begun] ∧
      FullDisk.created.manifest.snapshots = [FullDisk.begun] ∧
      returns ManifestIo.persist FullDisk.created = true := by
    decide +kernel
  obtain ⟨refused, none, early, read, one, recorded⟩ := ran
  obtain ⟨e, refused⟩ := exists_error refused
  obtain ⟨e', early⟩ := exists_error early
  obtain ⟨m, read, same⟩ := Option.map_eq_some_iff.mp read
  have read := Library.Outcome.toOption_eq_some.mp read
  refine ⟨⟨e, _, refused, ?_⟩, ⟨e', _, m, early, ?_, ?_⟩, _, ok_finalState recorded, ?_⟩
  · exact failed_calls_keep_iff.1 _ _ _ 1 [] _ e (by simp [none]) refused
  · exact failed_calls_keep_iff.2.1 _ _ _ 1 e' early
  · exact failed_calls_keep_iff.2.2.1 _ _ _ 1 e' m FullDisk.begun early read (same.trans one.symm)
      (by rw [one]; decide) (by simp [one]) rfl rfl
  · exact (failed_calls_keep_iff.2.2.2 _ _ (ok_finalState recorded)).1

end Coordinator
end Moonclip
