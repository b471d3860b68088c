import Moonclip.Linked
import Moonclip.Recovery
import Moonclip.RetentionRuns

/-! Whether retention leaves the newest snapshot: pass 2 never takes it, and pass 1
does when every older full is protected. -/
namespace Moonclip
open Library.Effect Library.Files

/-- The snapshot without what its ranks hold, which no choice of retention reads. -/
def Snapshot.bare (s : Snapshot) : Snapshot := { s with ranks := ∅ }

namespace Retention

/-- Pass 1 counts the newest finalized snapshot, or its base, among the surplus. -/
def TakesNewest (m : Manifest) : Prop :=
  ∃ newest, newest? m.snapshots = some newest ∧
    newest.carrier ∈ surplus m.protectedSnapshotIds m.retention.maxFullSnapshots m.snapshots

variable {m m' : Manifest}

theorem filter_bare {p : Snapshot → Bool} (blind : ∀ s, p s.bare = p s) (snapshots : List Snapshot) :
    (snapshots.map Snapshot.bare).filter p = (snapshots.filter p).map Snapshot.bare := by
  have same : p ∘ Snapshot.bare = p := funext blind
  rw [List.filter_map, same]

theorem rollback_bare :
    ({ m with snapshots := m.snapshots.map Snapshot.bare } : Manifest).rollbackSnapshotIds =
    m.rollbackSnapshotIds := by
  have eligible := filter_bare (p := fun s => s.isFull && s.step % m.lineage.rollbackIntervalSteps == 0)
    (fun _ => rfl) m.snapshots.reverse
  rw [List.map_reverse] at eligible
  simp only [Manifest.rollbackSnapshotIds, eligible, ← List.map_take, List.map_map]
  rfl

theorem protected_bare :
    ({ m with snapshots := m.snapshots.map Snapshot.bare } : Manifest).protectedSnapshotIds =
    m.protectedSnapshotIds := by
  have pinned := filter_bare (p := fun s => s.pinned) (fun _ => rfl) m.snapshots
  simp only [Manifest.protectedSnapshotIds, rollback_bare, pinned, List.flatMap_map]
  rfl

theorem surplus_bare {keep : List Uuid} {maxFull : Nat} {snapshots : List Snapshot} :
    surplus keep maxFull (snapshots.map Snapshot.bare) = surplus keep maxFull snapshots := by
  have removable := filter_bare (p := removableFull keep) (fun _ => rfl) snapshots
  have fulls := filter_bare (p := Snapshot.isFull) (fun _ => rfl) snapshots
  simp only [surplus, removable, fulls, List.length_map, ← List.map_take, List.map_map]
  rfl

theorem newest?_bare {snapshots : List Snapshot} :
    newest? (snapshots.map Snapshot.bare) = (newest? snapshots).map Snapshot.bare := by
  have finalized := filter_bare (p := fun s => s.finalized) (fun _ => rfl) snapshots
  simp only [newest?, finalized, List.getLast?_map]

/-- What is taken does not depend on what the snapshots hold. -/
theorem takesNewest_bare (limits : m.retention = m'.retention) (lineage : m.lineage = m'.lineage)
    (same : m.snapshots.map Snapshot.bare = m'.snapshots.map Snapshot.bare) :
    TakesNewest m ↔ TakesNewest m' := by
  have step : ∀ m : Manifest, TakesNewest m ↔
    ∃ newest, newest? (m.snapshots.map Snapshot.bare) = some newest ∧
      newest.carrier ∈ surplus ({ m with snapshots := m.snapshots.map Snapshot.bare } :
        Manifest).protectedSnapshotIds
        m.retention.maxFullSnapshots (m.snapshots.map Snapshot.bare) := by
    intro m
    simp only [TakesNewest, protected_bare, surplus_bare, newest?_bare, Option.map_eq_some_iff]
    constructor
    · rintro ⟨newest, last, taken⟩
      exact ⟨newest.bare, ⟨newest, last, rfl⟩, taken⟩
    · rintro ⟨_, ⟨newest, last, rfl⟩, taken⟩
      exact ⟨newest, last, taken⟩
  rw [step m, step m', same, limits]
  simp only [Manifest.protectedSnapshotIds, Manifest.rollbackSnapshotIds, lineage]

/-- The newest is left exactly when pass 1 does not take it. -/
theorem newest_left_iff (distinct : Distinct m.snapshots) (last : newest? m.snapshots = some newest) :
    (∃ s ∈ (retain m).1.snapshots, s.id = newest.id) ↔ ¬ TakesNewest m := by
  have here : (∃ s ∈ (retain m).1.snapshots, s.id = newest.id) ↔ newest ∈ (retain m).1.snapshots := by
    constructor
    · rintro ⟨s, left, same⟩
      have present := (newest?_mem last).1
      rwa [← distinct.eq_of_id (retain_sublist.subset left) present same]
    · exact fun left => ⟨newest, left, rfl⟩
  rw [here, retain_newest distinct last]
  simp [TakesNewest, last]

end Retention
/-- A list that names each of its snapshots once, all of them among `used`. -/
structure Manifest.Kin (used : List Uuid) (m : Manifest) : Prop where
  distinct : Distinct m.snapshots
  known : ∀ s ∈ m.snapshots, s.id ∈ used

theorem Manifest.Kin.sync {used : List Uuid} {m : Manifest} {steps : Option (List Nat)} (kin : m.Kin used) :
    (m.syncPins steps).Kin used where
  distinct := syncPins_distinct kin.distinct
  known s present := by
    obtain ⟨flag, flagged⟩ := syncPins_eq_map m steps
    rw [flagged] at present
    obtain ⟨t, there, rfl⟩ := List.mem_map.mp present
    exact kin.known t there

theorem Manifest.Kin.push {used : List Uuid} {m : Manifest} {s : Snapshot} (kin : m.Kin used)
    (new : snapId ∉ used) (id : s.id = snapId) :
    ({ m with snapshots := m.snapshots ++ [s] } : Manifest).Kin (snapId :: used) where
  distinct := by
    have apart : ∀ t ∈ m.snapshots, t.id ≠ snapId := fun t there same => new (same ▸ kin.known t there)
    simpa [Distinct, List.nodup_append, id] using ⟨kin.distinct, apart⟩
  known t there := by
    rcases List.mem_append.mp there with before | pushed
    · exact List.mem_cons_of_mem _ (kin.known t before)
    · obtain rfl := List.mem_singleton.mp pushed
      exact id ▸ List.mem_cons_self

theorem Manifest.syncPins_bare {m : Manifest} {steps : Option (List Nat)} :
    (m.syncPins steps).snapshots.map Snapshot.bare =
      (({ m with snapshots := m.snapshots.map Snapshot.bare } : Manifest).syncPins steps).snapshots := by
  cases steps with
  | none => rfl
  | some steps =>
    simp only [syncPins, List.map_map]
    refine List.map_congr_left fun s _ => ?_
    by_cases done : s.finalized = true
    · simp [Snapshot.bare, done]
    · simp [Snapshot.bare, done]

theorem Manifest.Kin.retain {used : List Uuid} {m : Manifest} (kin : m.Kin used) :
    (Retention.retain m).1.Kin used :=
  ⟨Retention.retain_distinct kin.distinct, fun s left => kin.known s (Retention.retain_sublist.subset left)⟩

namespace Coordinator

section
variable [SerdeJson] {used : List Uuid} {w after : World} {m : Manifest} {pins : Option Bytes}

/-- The list and the pins file are as given. -/
def Leaves (m : Manifest) (pins : Option Bytes) (w : World) : Prop :=
  w.manifest = m ∧ w.disk.files.find? .pinsJson = pins

theorem applyRetention_kin : Triple (fun w => w.manifest.Kin used) applyRetention
    (fun _ w => w.manifest.Kin used) fun _ w => w.manifest.Kin used := by
  refine Triple.get_bind fun w₀ => ?_
  refine Triple.bind (fun _ w => w.manifest.Kin used)
    (Triple.returning (fun _ _ _ pre => pre.1 ▸ pre.2) fun _ _ _ pre => pre.1 ▸ pre.2) fun steps => ?_
  refine Triple.get_bind fun w₁ => ?_
  refine Triple.bind (fun _ w => w.manifest.Kin used)
    (Triple.modified fun w pre => pre.2.sync.retain) fun _ => ?_
  refine Triple.bind (fun _ w => w.manifest.Kin used) (fun w kin => ?_) fun _ => Triple.pure fun _ kin => kin
  have left := ManifestIo.persist_recorded w (ManifestIo.Recorded.refl w)
  have settled : ∀ after, ManifestIo.Recorded w after → after.manifest.Kin used := by
    intro after recorded
    obtain ⟨written, same⟩ := recorded.manifest
    rw [same]
    exact ⟨kin.distinct, kin.known⟩
  cases ran : ManifestIo.persist w with
  | ok u after =>
    rw [ran] at left
    exact settled after left
  | error err after =>
    rw [ran] at left
    exact settled after left

omit [SerdeJson] in
/-- Removing files is nothing to the list. -/
theorem unlinkSnapshots_manifest {Q : Manifest → Prop} {doomed : List Snapshot}
    {fail : MoonclipError → World → Prop} :
    Triple (fun w => Q w.manifest) (unlinkSnapshots doomed) (fun _ w => Q w.manifest) fail := by
  refine Triple.get_bind fun w₀ => ?_
  refine Triple.weaken (fun w => Q w.manifest) ?_ (fun w pre => pre.1 ▸ pre.2) (fun _ _ same => same)
    fun _ _ same => same
  split
  · exact Triple.pure fun w same => same
  · exact Triple.forM fun p _ => Storage.delete_spec (fun w same => same) fun w same => same

variable [Zstd] [Xxh3] {cfg : Config} {snapId : Uuid} {tensors : List TensorData}
  {base : Option Snapshot} {context : SnapshotContext} {evicted : List Snapshot}

theorem saveRankTensors_leaves : Triple (Leaves m pins) (saveRankTensors cfg snapId base tensors context)
    (fun _ => Leaves m pins) fun _ => Leaves m pins := by
  refine Triple.get_bind fun w₀ => ?_
  extract_lets cache
  refine Triple.bind (fun _ => Leaves m pins)
    (Triple.returning (fun _ _ _ pre => pre.1 ▸ pre.2) fun _ _ _ pre => pre.1 ▸ pre.2) fun pts => ?_
  extract_lets placed rankEntry rest
  have go : Triple (Leaves m pins) (rest ()) (fun _ => Leaves m pins) fun _ => Leaves m pins := by
    refine Triple.bind (fun _ => Leaves m pins)
      (Triple.returning (fun _ _ _ same => same) fun _ _ _ same => same) fun parts => ?_
    refine Triple.bind (fun _ => Leaves m pins)
      (Storage.put_spec (fun w same _ => ⟨same.1, ?_⟩) fun _ _ same => same)
      fun _ => Triple.pure fun _ same => same
    rw [← same.2]
    exact FileStore.find?_put_of_ne (by simp [packPath])
  split
  · exact Triple.bind _ (Triple.modified fun w same => same) fun _ => go
  · exact go

/-- What a save announces before its ranks are written. -/
def announced (cfg : Config) (snapId : Uuid) (context : SnapshotContext) (w : World) : Manifest :=
  { w.manifest with snapshots := w.manifest.snapshots ++
      [snapshotOf cfg snapId (chooseBase w.manifest w.inFlight context.step) context
        (rankEntryOf cfg.rank (packPath snapId cfg.rank) [])] }

theorem recordSave_ok (ran : recordSave cfg snapId base tensors context w = .ok evicted after) :
    ∃ entry steps written, readPins w.disk.files = .ok steps ∧ after.manifest =
      { (Retention.retain (({ w.manifest with snapshots := w.manifest.snapshots ++
          [snapshotOf cfg snapId base context entry] } : Manifest).syncPins steps)).1 with
        ranksWritten := written } := by
  simp only [recordSave, bind_eq_ok, modify_eq_ok] at ran
  obtain ⟨entry, mid, saved, _, _, rfl, ran⟩ := ran
  obtain ⟨same, pins⟩ := saveRankTensors_leaves.ok ⟨rfl, rfl⟩ saved
  obtain ⟨steps, written, read, _, _, left⟩ := applyRetention_ok ran
  refine ⟨entry, steps, written, ?_, ?_⟩
  · simpa only [readPins, pins] using read
  · rw [left, same]

/-- A save that returns has pushed its snapshot and let retention choose. -/
theorem saveSync_ok (ran : saveSync cfg snapId tensors context w = .ok () after) :
    ∃ entry steps written, readPins w.disk.files = .ok steps ∧ after.manifest =
      { (Retention.retain (({ w.manifest with snapshots := w.manifest.snapshots ++
          [snapshotOf cfg snapId (chooseBase w.manifest w.inFlight context.step) context entry] } :
            Manifest).syncPins steps)).1 with ranksWritten := written } := by
  simp only [saveSync, bind_eq_ok, get_eq_ok] at ran
  obtain ⟨_, _, ⟨rfl, rfl⟩, evicted, mid, saved, removed⟩ := ran
  have kept : after.manifest = mid.manifest :=
    (@unlinkSnapshots_manifest (· = mid.manifest) evicted fun _ _ => True).ok rfl removed
  unfold bracket at saved
  split at saved
  · rename_i recorded
    obtain ⟨rfl, rfl⟩ := EStateM.Result.ok.inj saved
    obtain ⟨entry, steps, written, read, left⟩ := recordSave_ok recorded
    exact ⟨entry, steps, written, read, kept.trans left⟩
  · contradiction

/-- However a save ends, the list names each snapshot once. -/
theorem saveSync_kin (new : snapId ∉ used) : Triple (fun w => w.manifest.Kin used)
    (saveSync cfg snapId tensors context) (fun _ w => w.manifest.Kin (snapId :: used))
    fun _ w => w.manifest.Kin (snapId :: used) := by
  have wider : ∀ m : Manifest, m.Kin used → m.Kin (snapId :: used) :=
    fun m kin => ⟨kin.distinct, fun s there => List.mem_cons_of_mem _ (kin.known s there)⟩
  refine Triple.get_bind fun w₀ => ?_
  extract_lets base pins
  refine Triple.bind (fun _ w => w.manifest.Kin (snapId :: used)) ?_ fun evicted => unlinkSnapshots_manifest
  have recorded : Triple (fun w => w.manifest.Kin used) (recordSave cfg snapId base tensors context)
      (fun _ w => w.manifest.Kin (snapId :: used)) fun _ w => w.manifest.Kin (snapId :: used) := by
    intro w kin
    suffices go : Triple (Leaves w.manifest (w.disk.files.find? .pinsJson))
        (recordSave cfg snapId base tensors context) _ _ from go w ⟨rfl, rfl⟩
    refine Triple.bind (fun _ w' => w'.manifest = w.manifest) ?_ fun entry => ?_
    · exact Triple.weaken _ saveRankTensors_leaves (fun _ same => same) (fun _ _ left => left.1)
        fun _ w' left => left.1 ▸ wider _ kin
    · refine Triple.bind _ (Triple.modified fun w' same => ?_) fun _ => applyRetention_kin
      rw [same]
      exact kin.push new rfl
  refine Triple.weaken (fun w => w.manifest.Kin used) (Triple.bracket recorded (fun _ kin => kin)
    (fun _ _ kin => kin) fun _ _ kin => kin) (fun w pre => pre.1 ▸ pre.2) (fun _ _ kin => kin)
    fun _ _ kin => kin

omit [SerdeJson] [Zstd] [Xxh3] in
/-- The newest snapshot of what a save announces is its own. -/
theorem newest?_push {snapshots : List Snapshot} {s : Snapshot} (finalized : s.finalized = true) :
    Retention.newest? (snapshots ++ [s]) = some s := by
  simp [Retention.newest?, finalized]

omit [SerdeJson] [Zstd] [Xxh3] in
theorem newest?_sync (steps : Option (List Nat)) {newest : Snapshot}
    (last : Retention.newest? m.snapshots = some newest) :
    ∃ synced, Retention.newest? (m.syncPins steps).snapshots = some synced ∧ synced.id = newest.id := by
  obtain ⟨flag, flagged⟩ := Manifest.syncPins_eq_map m steps
  refine ⟨{ newest with pinned := flag newest }, ?_, rfl⟩
  have finalized : (fun s : Snapshot => s.finalized) ∘ (fun s : Snapshot => { s with pinned := flag s }) =
      fun s => s.finalized := rfl
  rw [flagged, Retention.newest?, List.filter_map, finalized, List.getLast?_map, ← Retention.newest?, last]
  rfl

/-- Stores that saves lead to, and the identifiers taken so far: from any list that
names each snapshot once, with any configuration at each save, whether it succeeds. -/
inductive SaveRun : List Uuid → World → Prop where
  | start (w : World) (used : List Uuid) (kin : w.manifest.Kin used) : SaveRun used w
  | save (used : List Uuid) (w : World) (cfg : Config) (id : Uuid) (tensors : List TensorData)
      (context : SnapshotContext) (before : SaveRun used w) (new : id ∉ used) :
      SaveRun (id :: used) (finalState (saveSync cfg id tensors context) w)

theorem SaveRun.kin (run : SaveRun used w) : w.manifest.Kin used := by
  induction run with
  | start w used kin => exact kin
  | save used w cfg id tensors context before new ih => exact (saveSync_kin new).final ih

/-- Retention leaves the newest snapshot, and a save its own, exactly where pass 1
does not count it among the surplus. -/
theorem newest_kept_iff :
    (∀ (w after : World) (evicted : List Snapshot) (newest : Snapshot),
      Distinct w.manifest.snapshots → applyRetention w = .ok evicted after →
      Retention.newest? w.manifest.snapshots = some newest →
      ∃ steps, readPins w.disk.files = .ok steps ∧
        ((∃ s ∈ after.manifest.snapshots, s.id = newest.id) ↔
          ¬ Retention.TakesNewest (w.manifest.syncPins steps))) ∧
    ∀ (used : List Uuid) (w after : World) (cfg : Config) (id : Uuid) (tensors : List TensorData)
      (context : SnapshotContext), SaveRun used w → id ∉ used →
      saveSync cfg id tensors context w = .ok () after →
      ∃ steps, readPins w.disk.files = .ok steps ∧
        ((∃ s ∈ after.manifest.snapshots, s.id = id) ↔
          ¬ Retention.TakesNewest ((announced cfg id context w).syncPins steps)) := by
  constructor
  · intro w after evicted newest distinct ran last
    obtain ⟨steps, written, read, _, _, left⟩ := applyRetention_ok ran
    obtain ⟨synced, last', same⟩ := newest?_sync steps last
    refine ⟨steps, read, ?_⟩
    rw [left, ← same]
    exact Retention.newest_left_iff (Manifest.syncPins_distinct distinct) last'
  · intro used w after cfg id tensors context run new ran
    obtain ⟨entry, steps, written, read, left⟩ := saveSync_ok ran
    obtain ⟨synced, last, same⟩ := newest?_sync (m := { w.manifest with
        snapshots := w.manifest.snapshots ++ [snapshotOf cfg id
          (chooseBase w.manifest w.inFlight context.step) context entry] }) steps (newest?_push rfl)
    have distinct := (run.kin.push new (s := snapshotOf cfg id
      (chooseBase w.manifest w.inFlight context.step) context entry) rfl).distinct
    refine ⟨steps, read, ?_⟩
    rw [left]
    have own := Retention.newest_left_iff (Manifest.syncPins_distinct distinct) last
    rw [same] at own
    refine own.trans (not_congr (Retention.takesNewest_bare (by simp [announced]) (by simp [announced]) ?_))
    rw [Manifest.syncPins_bare, Manifest.syncPins_bare]
    simp [announced, Snapshot.bare, snapshotOf]

end
namespace OneFull

/-- A store that is to keep one full snapshot. -/
def config : Config where
  worldSize := 1
  rank := 0
  compression := .none
  retention := ⟨1, 10, 5000, none⟩
  lineage := .default
  deltaMaxRatio := 0.8
  saveDtype := .none
  keepBaseInMemory := false
  merger := none

def blank : World where
  disk := ⟨.empty, [], 0, fun _ _ => true, fun _ => true⟩
  manifest := .default
  retainedBase := none
  inFlight := .default

def listing (pinned : Bool) : Manifest :=
  ⟨3, 1, [emptyFull 1 100 pinned], config.retention, .default, {1}⟩

def describing (id : Uuid) (step : Nat) : PackDescriptor :=
  ⟨id, step, 0, none, ∅, .none, 1, rankEntryOf 0 (packPath id 0) []⟩

abbrev serde : SerdeJson :=
  JsonText.serde (fun _ => []) [ManifestIo.indexOf (listing false), ManifestIo.indexOf (listing true)]
    [⟨1, (emptyFull 1 100 false).ranks⟩] [describing 1 100, describing 2 5100] [[100]]

def opened : World :=
  @finalState _ _ _
    (@Recovery.openStore serde Linked.xxh3 config
    ⟨fun dirs => dirs, fun _ => .refl _, fun entries => entries, fun _ => .refl _⟩) blank

def first : World :=
  @finalState _ _ _ (@saveSync serde Linked.zstd Linked.xxh3 config 1 [] ⟨100, 0, ∅⟩) opened

def pinned : World := @finalState _ _ _ (@setPinned serde 100 true) first

def second : World :=
  @finalState _ _ _ (@saveSync serde Linked.zstd Linked.xxh3 config 2 [] ⟨5100, 0, ∅⟩) pinned

end OneFull

/-- The first save is pinned, the second is due as a full: it returns, and is gone. -/
theorem newest_lost :
    let _ := Linked.zstd
    let _ := Linked.xxh3
    let _ := OneFull.serde
    ∃ opened first pinned second, Recovery.openStore OneFull.config
      ⟨fun dirs => dirs, fun _ => .refl _, fun entries => entries, fun _ => .refl _⟩
        OneFull.blank = .ok () opened ∧
      saveSync OneFull.config 1 [] ⟨100, 0, ∅⟩ opened = .ok () first ∧
      (∃ found, setPinned 100 true first = .ok found pinned) ∧
      1 ≤ pinned.manifest.retention.maxFullSnapshots ∧
      1 ≤ pinned.manifest.retention.effectiveTotalCap ∧
      saveSync OneFull.config 2 [] ⟨5100, 0, ∅⟩ pinned = .ok () second ∧
      ∀ s ∈ second.manifest.snapshots, s.id ≠ 2 := by
  intro zstd xxh3 serde
  have ran :
    returns (Recovery.openStore OneFull.config ⟨fun dirs => dirs, fun _ => .refl _, fun entries =>
    entries, fun _ => .refl _⟩)
        OneFull.blank = true ∧
      returns (saveSync OneFull.config 1 [] ⟨100, 0, ∅⟩) OneFull.opened = true ∧
      returns (setPinned 100 true) OneFull.first = true ∧
      returns (saveSync OneFull.config 2 [] ⟨5100, 0, ∅⟩) OneFull.pinned = true ∧
      1 ≤ OneFull.pinned.manifest.retention.maxFullSnapshots ∧
      1 ≤ OneFull.pinned.manifest.retention.effectiveTotalCap ∧
      ∀ s ∈ OneFull.second.manifest.snapshots, s.id ≠ 2 := by
    decide +kernel
  obtain ⟨opening, saving, pinning, again, fulls, total, lost⟩ := ran
  exact ⟨OneFull.opened, OneFull.first, OneFull.pinned, OneFull.second, ok_finalState opening,
    ok_finalState saving, exists_ok pinning, fulls, total, ok_finalState again, lost⟩

/-- Retention over the pinned full alone, and the save that wrote it. -/
theorem newest_kept_first :
    let _ := Linked.zstd
    let _ := Linked.xxh3
    let _ := OneFull.serde
    (∃ after evicted steps, applyRetention OneFull.pinned = .ok evicted after ∧
      ((∃ s ∈ after.manifest.snapshots, s.id = 1) ↔
        ¬ Retention.TakesNewest (OneFull.pinned.manifest.syncPins steps))) ∧
    ∃ steps, readPins OneFull.opened.disk.files = .ok steps ∧
      ((∃ s ∈ OneFull.first.manifest.snapshots, s.id = 1) ↔
        ¬ Retention.TakesNewest
          ((announced OneFull.config 1 ⟨100, 0, ∅⟩ OneFull.opened).syncPins steps)) := by
  intro zstd xxh3 serde
  have ran : returns applyRetention OneFull.pinned = true ∧
      returns (saveSync OneFull.config 1 [] ⟨100, 0, ∅⟩) OneFull.opened = true ∧
      OneFull.opened.manifest.snapshots = [] ∧
      OneFull.pinned.manifest.snapshots = [emptyFull 1 100 true] := by
    decide +kernel
  obtain ⟨settling, saving, none, one⟩ := ran
  obtain ⟨evicted, settled⟩ := exists_ok settling
  constructor
  · obtain ⟨steps, _, left⟩ := newest_kept_iff.1 OneFull.pinned _ evicted (emptyFull 1 100 true)
      (by simp [one, Distinct]) settled (by rw [one]; rfl)
    exact ⟨_, evicted, steps, settled, left⟩
  · exact newest_kept_iff.2 [] OneFull.opened OneFull.first OneFull.config 1 [] ⟨100, 0, ∅⟩
      (.start _ [] ⟨by simp [none, Distinct], by simp [none]⟩) (by simp) (ok_finalState saving)

end Coordinator
end Moonclip
