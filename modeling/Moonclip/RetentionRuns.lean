import Moonclip.Coordinator
import Moonclip.JsonText
import Moonclip.RetentionLimits

/-! Retention as the coordinator runs it: the pins of `pins.json` are honoured
first, and the list the passes settle on is the one that stays in memory. -/
namespace Moonclip
open Library.Effect Library.Files

namespace ManifestIo

/-- What a persist leaves alone, whether it succeeds or fails: the list and the
limits, the pins file and the packs, and what is not on disk. -/
structure Recorded (before after : World) : Prop where
  manifest : ∃ written, after.manifest = { before.manifest with ranksWritten := written }
  pins : after.disk.files.find? .pinsJson = before.disk.files.find? .pinsJson
  packs : ∀ id rank, after.disk.files.find? (packPath id rank) =
    before.disk.files.find? (packPath id rank)
  retainedBase : after.retainedBase = before.retainedBase
  inFlight : after.inFlight = before.inFlight

theorem Recorded.refl (w : World) : Recorded w w := ⟨⟨_, rfl⟩, rfl, fun _ _ => rfl, rfl, rfl⟩

theorem Recorded.put {before w : World} {p : Path} {body : Bytes} (recorded : Recorded before w)
    (other : p ≠ .pinsJson) (noPack : ∀ id rank, p ≠ packPath id rank) :
    Recorded before { w with disk := w.disk.change (.put p body) } where
  manifest := recorded.manifest
  pins := by simp [Change.apply, Ne.symm other, recorded.pins]
  packs id rank := by simp [Change.apply, (noPack id rank).symm, recorded.packs]
  retainedBase := recorded.retainedBase
  inFlight := recorded.inFlight

variable [SerdeJson]

/-- What the ranks files and the index do not disturb, a persist keeps. -/
theorem persist_invariant {inv : World → Prop}
    (lists : ∀ w ids, inv w → inv { w with manifest := recordWritten ids w.manifest })
    (puts : ∀ w p body, inv w → (p = .manifestJson ∨ ∃ id, p = ranksPath id) →
      inv { w with disk := w.disk.change (.put p body) }) :
    Triple inv persist (fun _ => inv) fun _ => inv := by
  have turn : ∀ s, Triple inv (writeRanks s) (fun _ => inv) fun _ => inv := by
    intro s
    refine Triple.returning_keep (fun body => ?_) fun _ _ held => held
    exact Storage.put_spec (fun w held _ => puts w _ _ held (.inr ⟨s.id, rfl⟩)) fun w e held => held
  refine Triple.get_keep fun w => ?_
  refine Triple.bind _ (Triple.forM fun s _ => turn s) fun _ => ?_
  refine Triple.modify_bind inv (fun w held => lists w _ held) fun _ => ?_
  refine Triple.get_keep fun w => Triple.returning_keep (fun json => ?_) fun _ _ held => held
  exact Storage.put_spec (fun w held _ => puts w _ _ held (.inl rfl)) fun w e held => held

theorem persist_recorded {before : World} :
    Triple (Recorded before) persist (fun _ => Recorded before) fun _ => Recorded before := by
  refine persist_invariant (fun w ids held => ?_) fun w p body held wrote => ?_
  · obtain ⟨written, same⟩ := held.manifest
    exact { held with manifest := ⟨_, by rw [same]; rfl⟩ }
  · rcases wrote with rfl | ⟨id, rfl⟩
    · exact held.put (by simp) nofun
    · exact held.put (by simp [ranksPath]) fun _ _ => by simp [ranksPath, packPath]

end ManifestIo

namespace Manifest
variable {m : Manifest} {steps : Option (List Nat)}

@[simp] theorem syncPins_retention : (m.syncPins steps).retention = m.retention := by
  cases steps <;> rfl

@[simp] theorem syncPins_lineage : (m.syncPins steps).lineage = m.lineage := by
  cases steps <;> rfl

/-- A pin flag that agrees with the pinned steps. -/
def Synced (steps : Option (List Nat)) (s : Snapshot) : Prop :=
  ∀ pinned, steps = some pinned → s.finalized = true → s.pinned = pinned.contains s.step

theorem syncPins_of_synced (synced : ∀ s ∈ m.snapshots, Synced steps s) :
    m.syncPins steps = m := by
  cases steps with
  | none => rfl
  | some pinned =>
    have same : (m.snapshots.map fun s =>
        if s.finalized then { s with pinned := pinned.contains s.step } else s) = m.snapshots := by
      conv_rhs => rw [← List.map_id m.snapshots]
      refine List.map_congr_left fun s listed => ?_
      split
      · rename_i finalized
        rw [← synced s listed pinned rfl finalized]
        rfl
      · rfl
    simp only [syncPins, same]

theorem syncPins_synced : ∀ s ∈ (m.syncPins steps).snapshots, Synced steps s := by
  intro s listed pinned decided finalized
  subst decided
  simp only [syncPins, List.mem_map] at listed
  obtain ⟨t, _, rfl⟩ := listed
  by_cases done : t.finalized = true
  · simp only [if_pos done]
  · simp only [if_neg done] at finalized
    exact absurd finalized done

@[simp] theorem syncPins_ranksWritten {m : Manifest} {steps : Option (List Nat)} :
    (m.syncPins steps).ranksWritten = m.ranksWritten := by
  cases steps <;> rfl

/-- Syncing changes flags and nothing else. -/
theorem syncPins_eq_map (m : Manifest) (steps : Option (List Nat)) : ∃ flag : Snapshot → Bool,
    (m.syncPins steps).snapshots = m.snapshots.map fun s => { s with pinned := flag s } := by
  cases steps with
  | none => exact ⟨(·.pinned), by simp [syncPins]⟩
  | some pinned =>
    refine ⟨fun s => if s.finalized then pinned.contains s.step else s.pinned, ?_⟩
    simp only [syncPins]
    refine List.map_congr_left fun s _ => ?_
    split <;> rfl

end Manifest

theorem Distinct.reflag {snapshots : List Snapshot} (distinct : Distinct snapshots)
    (flag : Snapshot → Bool) : Distinct (snapshots.map fun s => { s with pinned := flag s }) := by
  simpa [Distinct, Function.comp_def] using distinct

theorem Closed.reflag {snapshots : List Snapshot} (closed : Closed snapshots)
    (flag : Snapshot → Bool) : Closed (snapshots.map fun s => { s with pinned := flag s }) := by
  intro d hd base delta
  obtain ⟨t, ht, rfl⟩ := List.mem_map.mp hd
  obtain ⟨b, hb, same, full⟩ := closed t ht base delta
  exact ⟨_, List.mem_map_of_mem hb, same, full⟩

namespace Manifest
variable {m : Manifest} {steps : Option (List Nat)}

theorem syncPins_distinct (distinct : Distinct m.snapshots) : Distinct (m.syncPins steps).snapshots := by
  obtain ⟨flag, flagged⟩ := syncPins_eq_map m steps
  rw [flagged]
  exact distinct.reflag flag

theorem syncPins_closed (closed : Closed m.snapshots) : Closed (m.syncPins steps).snapshots := by
  obtain ⟨flag, flagged⟩ := syncPins_eq_map m steps
  rw [flagged]
  exact closed.reflag flag

end Manifest

namespace Retention

/-- What retention owes: nobody moves, nobody protected leaves, no delta is left
without its base, and a limit still exceeded is exceeded by necessity. -/
structure Sound (before after : Manifest) : Prop where
  limits : after.retention = before.retention ∧ after.lineage = before.lineage
  sublist : List.Sublist after.snapshots before.snapshots
  safe : ∀ s ∈ before.snapshots, s.id ∈ before.protectedSnapshotIds → s ∈ after.snapshots
  bases : Closed after.snapshots
  fulls : (after.snapshots.filter Snapshot.isFull).length ≤ after.retention.maxFullSnapshots ∨
    ∀ s ∈ after.snapshots, s.isFull = true → s.id ∈ after.protectedSnapshotIds
  total : (after.snapshots.filter (·.finalized)).length ≤ after.retention.effectiveTotalCap ∨
    ∀ s ∈ after.snapshots, s.finalized = true →
      (newest? after.snapshots).map (·.id) ≠ some s.id → Held after s

theorem retain_sound {m : Manifest} (distinct : Distinct m.snapshots) (closed : Closed m.snapshots)
    (written : Finset Uuid) :
    Sound m { (retain m).1 with ranksWritten := written } where
  limits := ⟨rfl, rfl⟩
  sublist := retain_sublist
  safe _ := retain_keeps_protected distinct closed
  bases := retain_closed distinct closed
  fulls := by
    have settled := capFulls_settled.mp (retain_fulls_settled (m := m))
    rw [← retain_protectedSnapshotIds distinct closed] at settled
    exact settled
  total := retain_total_capped distinct closed

end Retention

namespace Coordinator

section
variable [SerdeJson] {w after : World} {evicted : List Snapshot}

theorem applyRetention_eq_ok : applyRetention w = .ok evicted after ↔
    ∃ steps, readPins w.disk.files = .ok steps ∧ evicted = (Retention.retain (w.manifest.syncPins steps)).2 ∧
      ManifestIo.persist { w with manifest := (Retention.retain (w.manifest.syncPins steps)).1 } =
        .ok () after := by
  simp only [applyRetention, bind_eq_ok, get_eq_ok, modify_eq_ok, returning_eq_ok, pure_eq_ok]
  constructor
  · rintro ⟨_, _, ⟨rfl, rfl⟩, steps, _, ⟨read, rfl⟩, _, _, ⟨rfl, rfl⟩, _, _, rfl, _, _, recorded, rfl, rfl⟩
    exact ⟨steps, read, rfl, recorded⟩
  · rintro ⟨steps, read, rfl, recorded⟩
    exact ⟨_, _, ⟨rfl, rfl⟩, steps, _, ⟨read, rfl⟩, _, _, ⟨rfl, rfl⟩, (), _, rfl, (), _, recorded, rfl, rfl⟩

/-- What a run of retention leaves: the list both passes settle on, with the pins
of the pins file, and that file as it was. -/
theorem applyRetention_ok (ran : applyRetention w = .ok evicted after) :
    ∃ steps written, readPins w.disk.files = .ok steps ∧ readPins after.disk.files = .ok steps ∧
      evicted = (Retention.retain (w.manifest.syncPins steps)).2 ∧
      after.manifest =
        { (Retention.retain (w.manifest.syncPins steps)).1 with ranksWritten := written } := by
  obtain ⟨steps, read, rfl, recorded⟩ := applyRetention_eq_ok.mp ran
  have left := ManifestIo.persist_recorded.ok (ManifestIo.Recorded.refl _) recorded
  obtain ⟨written, same⟩ := left.manifest
  exact ⟨steps, written, read, by simpa only [readPins, left.pins] using read, rfl, same⟩

/-- A second run finds the pins in line and both passes settled. -/
theorem applyRetention_again (distinct : Distinct w.manifest.snapshots)
    (closed : Closed w.manifest.snapshots) (ran : applyRetention w = .ok evicted after)
    (reran : applyRetention after = .ok evicted' again) :
    evicted' = [] ∧ again.manifest.snapshots = after.manifest.snapshots := by
  obtain ⟨steps, written, _, read, rfl, left⟩ := applyRetention_ok ran
  obtain ⟨steps', written', read', _, rfl, left'⟩ := applyRetention_ok reran
  obtain rfl : steps = steps' := by simpa [read] using read'
  have synced : after.manifest.syncPins steps = after.manifest := by
    refine Manifest.syncPins_of_synced fun s listed => ?_
    rw [left] at listed
    exact Manifest.syncPins_synced s (Retention.retain_sublist.subset listed)
  have settled := Retention.retain_idempotent (m := w.manifest.syncPins steps)
    (Manifest.syncPins_distinct distinct) (Manifest.syncPins_closed closed)
  have rest : Retention.retain after.manifest = (after.manifest, []) := by
    rw [left]
    have unwritten := congrArg
      (fun r : Manifest × List Snapshot => ({ r.1 with ranksWritten := written }, r.2)) settled
    exact unwritten
  rw [synced, rest] at left' ⊢
  exact ⟨rfl, by rw [left']⟩

/-- Retention keeps the order, the protected and the bases, stays within its
limits where anything could leave, and has nothing left to do afterwards. -/
theorem applyRetention_sound (distinct : Distinct w.manifest.snapshots)
    (closed : Closed w.manifest.snapshots) (ran : applyRetention w = .ok evicted after) :
    ∃ steps, readPins w.disk.files = .ok steps ∧
      List.Sublist (after.manifest.snapshots.map Snapshot.unpinned)
        (w.manifest.snapshots.map Snapshot.unpinned) ∧
      Retention.Sound (w.manifest.syncPins steps) after.manifest ∧
      ∀ evicted' again, applyRetention after = .ok evicted' again →
        evicted' = [] ∧ again.manifest.snapshots = after.manifest.snapshots := by
  obtain ⟨steps, written, read, _, _, left⟩ := applyRetention_ok ran
  have sound : Retention.Sound (w.manifest.syncPins steps) after.manifest :=
    left ▸ Retention.retain_sound (Manifest.syncPins_distinct distinct)
      (Manifest.syncPins_closed closed) written
  refine ⟨steps, read, ?_, sound, fun _ _ => applyRetention_again distinct closed ran⟩
  obtain ⟨flag, flagged⟩ := Manifest.syncPins_eq_map w.manifest steps
  have shrunk := sound.sublist.map Snapshot.unpinned
  rwa [flagged, List.map_map] at shrunk

end

/-- A full snapshot of rank 0 with no tensors. -/
def emptyFull (id : Uuid) (step : Nat) (pinned : Bool) : Snapshot where
  id := id
  step := step
  createdAt := 0
  ranks := .ofList [(0, rankEntryOf 0 (packPath id 0) [])]
  baseSnapshotId := none
  metadata := ∅
  compression := .none
  finalized := true
  pinned := pinned

/-- Three fulls where two are allowed, the outer ones pinned. -/
def crowded : World where
  disk := ⟨.empty, [], 0, fun _ _ => true, fun _ => true⟩
  manifest := ⟨3, 1, [emptyFull 1 100 true, emptyFull 2 200 false, emptyFull 3 300 true],
    ⟨2, 10, 5000, none⟩, .default, {1, 2, 3}⟩
  retainedBase := none
  inFlight := .default

def thinned : Manifest :=
  { crowded.manifest with
    snapshots := [emptyFull 1 100 true, emptyFull 3 300 true], ranksWritten := {1, 3} }

theorem applyRetention_sound_crowded :
    let _ := JsonText.serde (fun _ => []) [ManifestIo.indexOf thinned] [] [] []
    ∃ steps evicted after, applyRetention crowded = .ok evicted after ∧
      after.manifest = thinned ∧
      Retention.Sound (crowded.manifest.syncPins steps) after.manifest := by
  intro _
  have ran : ∃ evicted after, applyRetention crowded = .ok evicted after ∧
      after.manifest = thinned := ⟨_, _, rfl, by decide⟩
  obtain ⟨evicted, after, ran, left⟩ := ran
  obtain ⟨steps, _, _, sound, _⟩ := applyRetention_sound (by decide)
    (by simp [crowded, Closed, emptyFull]) ran
  exact ⟨steps, evicted, after, ran, left, sound⟩
end Coordinator
end Moonclip
