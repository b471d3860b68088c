import Moonclip.Retention

/-! What retention keeps. One removal of either pass is characterised on a list
of distinct snapshots whose deltas have a listed full as base; every invariant
of the loops follows from that characterisation. -/
namespace Moonclip

/-- No two listed snapshots share an identifier. -/
def Distinct (snapshots : List Snapshot) : Prop := (snapshots.map (·.id)).Nodup

/-- Every delta's base is a listed snapshot that is a delta of nothing. -/
def Closed (snapshots : List Snapshot) : Prop :=
  ∀ d ∈ snapshots, ∀ base, d.baseSnapshotId = some base →
    ∃ b ∈ snapshots, b.id = base ∧ b.baseSnapshotId = none

instance : Decidable (Distinct snapshots) := inferInstanceAs (Decidable (List.Nodup _))

theorem Distinct.eq_of_id (distinct : Distinct snapshots) (hs : s ∈ snapshots) (ht : t ∈ snapshots)
    (same : s.id = t.id) : s = t :=
  List.inj_on_of_nodup_map distinct hs ht same

theorem Distinct.sublist (distinct : Distinct snapshots) (kept : List.Sublist after snapshots) :
    Distinct after :=
  List.Nodup.sublist (kept.map _) distinct

theorem Distinct.nodup (distinct : Distinct snapshots) : snapshots.Nodup :=
  List.Nodup.of_map _ distinct

/-- A closed list stays closed when no base leaves before its deltas. -/
theorem Closed.filter (closed : Closed snapshots) (leaves : Snapshot → Bool)
    (safe : ∀ d ∈ snapshots, ∀ b ∈ snapshots, d.baseSnapshotId = some b.id →
      b.baseSnapshotId = none → leaves b = true → leaves d = true) :
    Closed (snapshots.filter (!leaves ·)) := by
  intro d hd base hbase
  obtain ⟨present, stays⟩ := List.mem_filter.mp hd
  obtain ⟨b, hb, rfl, full⟩ := closed d present base hbase
  refine ⟨b, List.mem_filter.mpr ⟨hb, ?_⟩, rfl, full⟩
  cases gone : leaves b with
  | false => rfl
  | true => simp [safe d present b hb hbase full gone] at stays

namespace Manifest
variable {id base : Uuid}

theorem mem_rollbackSnapshotIds {m : Manifest} (rollback : id ∈ m.rollbackSnapshotIds) :
    ∃ s ∈ m.snapshots, s.id = id ∧ s.isFull = true := by
  unfold rollbackSnapshotIds at rollback
  split at rollback
  · simp at rollback
  · simp only [List.mem_reverse, List.mem_map] at rollback
    obtain ⟨s, hs, rfl⟩ := rollback
    have eligible := List.mem_filter.mp (List.mem_of_mem_take hs)
    simp only [List.mem_reverse, Bool.and_eq_true] at eligible
    exact ⟨s, eligible.1, rfl, eligible.2.1⟩

theorem mem_protectedSnapshotIds {m : Manifest} :
    id ∈ m.protectedSnapshotIds ↔ id ∈ m.rollbackSnapshotIds ∨
      ∃ s ∈ m.snapshots, s.pinned = true ∧ (s.id = id ∨ s.baseSnapshotId = some id) := by
  simp only [protectedSnapshotIds, List.mem_dedup, List.mem_insertionSort, List.mem_append,
    List.mem_flatMap, List.mem_filter, List.mem_cons, Option.mem_toList]
  constructor
  · rintro (rollback | ⟨s, ⟨hs, pinned⟩, same | base⟩)
    · exact .inl rollback
    · exact .inr ⟨s, hs, pinned, .inl same.symm⟩
    · exact .inr ⟨s, hs, pinned, .inr base⟩
  · rintro (rollback | ⟨s, hs, pinned, same | base⟩)
    · exact .inl rollback
    · exact .inr ⟨s, ⟨hs, pinned⟩, .inl same.symm⟩
    · exact .inr ⟨s, ⟨hs, pinned⟩, .inr base⟩

/-- Protection reaches the base: a protected delta has a protected base. -/
theorem protected_base {m : Manifest} (distinct : Distinct m.snapshots) (closed : Closed m.snapshots)
    (hs : s ∈ m.snapshots) (kept : s.id ∈ m.protectedSnapshotIds)
    (delta : s.baseSnapshotId = some base) : base ∈ m.protectedSnapshotIds := by
  rcases mem_protectedSnapshotIds.mp kept with rollback | ⟨t, ht, pinned, same | baseOf⟩
  · obtain ⟨f, hf, same, full⟩ := mem_rollbackSnapshotIds rollback
    obtain rfl := distinct.eq_of_id hf hs same
    simp [(f.isFull_iff.mp full).1] at delta
  · obtain rfl := distinct.eq_of_id ht hs same
    exact mem_protectedSnapshotIds.mpr (.inr ⟨t, ht, pinned, .inr delta⟩)
  · obtain ⟨b, hb, same, full⟩ := closed t ht _ baseOf
    obtain rfl := distinct.eq_of_id hb hs same
    simp [full] at delta

end Manifest

namespace Retention
open Library.Eviction

variable {snapshots : List Snapshot} {keep : List Uuid} {maxFull maxTotal : Nat}

theorem mem_groupIds (distinct : Distinct snapshots) (ht : t ∈ snapshots) :
    (groupIds snapshots full).contains t.id = true ↔ t.id = full ∨ t.baseSnapshotId = some full := by
  simp only [groupIds, List.contains_eq_mem, List.mem_map, List.mem_filter, Bool.or_eq_true,
    beq_iff_eq, decide_eq_true_eq]
  constructor
  · rintro ⟨s, ⟨hs, member⟩, same⟩
    obtain rfl := distinct.eq_of_id hs ht same
    exact member
  · exact fun member => ⟨t, ⟨ht, member⟩, rfl⟩

/-- What pass 1 takes: an unprotected full and everything computed against it. -/
theorem capFulls_choose (chosen : (capFulls keep maxFull).choose snapshots = some victim) :
    ∃ full, snapshots.find? (removableFull keep) = some full ∧
      victim = fun t => (groupIds snapshots full.id).contains t.id := by
  simp only [capFulls, Option.map_eq_some_iff] at chosen
  obtain ⟨full, found, rfl⟩ := chosen
  exact ⟨full, found, rfl⟩

theorem removableFull_iff :
    removableFull keep s = true ↔ s.isFull = true ∧ s.id ∉ keep := by
  simp [removableFull]

/-- What pass 2 takes: one snapshot that is not the newest, not protected, and
either a delta or a full nobody is computed against. -/
theorem capTotal_choose (chosen : (capTotal keep maxTotal).choose snapshots = some victim) :
    ∃ newest s, newest? snapshots = some newest ∧ s ∈ snapshots ∧ s.finalized = true ∧
      s.id ≠ newest.id ∧ s.id ∉ keep ∧
      (s.baseSnapshotId ≠ none ∨ ∀ d ∈ snapshots, d.baseSnapshotId ≠ some s.id) ∧
      victim = fun t => decide (t.id = s.id) := by
  simp only [capTotal, Option.bind_eq_some_iff, Option.map_eq_some_iff] at chosen
  obtain ⟨newest, last, s, found, rfl⟩ := chosen
  have present := List.mem_filter.mp (List.mem_of_find?_eq_some found)
  have eligible := List.find?_some found
  simp only [removable, Bool.and_eq_true, bne_iff_ne, Bool.not_eq_true', Bool.or_eq_true,
    List.contains_eq_mem, decide_eq_false_iff_not, List.any_eq_false, beq_iff_eq] at eligible
  refine ⟨newest, s, last, present.1, present.2, eligible.1.1, eligible.1.2, ?_, ?_⟩
  · exact eligible.2.imp (fun delta => by simpa [Option.isSome_iff_ne_none] using delta) id
  · funext t
    simp [List.contains_eq_mem]

theorem capFulls_closed (distinct : Distinct snapshots) (closed : Closed snapshots)
    (chosen : (capFulls keep maxFull).choose snapshots = some victim) :
    Closed (snapshots.filter (!victim ·)) := by
  obtain ⟨full, _, rfl⟩ := capFulls_choose chosen
  apply closed.filter
  intro d hd b hb base isBase gone
  rw [mem_groupIds distinct hb] at gone
  rw [mem_groupIds distinct hd]
  rcases gone with same | delta
  · exact .inr (same ▸ base)
  · simp [isBase] at delta

theorem capTotal_closed (distinct : Distinct snapshots) (closed : Closed snapshots)
    (chosen : (capTotal keep maxTotal).choose snapshots = some victim) :
    Closed (snapshots.filter (!victim ·)) := by
  obtain ⟨_, s, _, hs, _, _, _, leaf, rfl⟩ := capTotal_choose chosen
  apply closed.filter
  intro d hd b hb base isBase gone
  have same : b.id = s.id := by simpa using gone
  obtain rfl := distinct.eq_of_id hb hs same
  rcases leaf with delta | alone
  · exact absurd isBase delta
  · exact absurd base (alone d hd)

/-- The list each pass works on stays distinct and closed. -/
theorem evict_closed {p : Policy Snapshot}
    (step : ∀ {snapshots victim}, Distinct snapshots → Closed snapshots →
      p.choose snapshots = some victim → Closed (snapshots.filter (!victim ·)))
    (distinct : Distinct snapshots) (closed : Closed snapshots) : Closed (p.evict snapshots).1 :=
  (Policy.evict_invariant (P := fun xs => Distinct xs ∧ Closed xs)
    (fun holds _ chosen => ⟨holds.1.sublist List.filter_sublist, step holds.1 holds.2 chosen⟩)
    ⟨distinct, closed⟩).2

/-- A snapshot no single removal takes is still there when the pass ends. -/
theorem evict_keeps {p : Policy Snapshot} {s : Snapshot}
    (step : ∀ {snapshots victim}, Distinct snapshots → s ∈ snapshots →
      p.choose snapshots = some victim → victim s = false)
    (distinct : Distinct snapshots) (present : s ∈ snapshots) : s ∈ (p.evict snapshots).1 :=
  (Policy.evict_invariant (P := fun xs => Distinct xs ∧ s ∈ xs)
    (fun holds _ chosen => ⟨holds.1.sublist List.filter_sublist,
      List.mem_filter.mpr ⟨holds.2, by simp [step holds.1 holds.2 chosen]⟩⟩)
    ⟨distinct, present⟩).2

/-- Neither a protected snapshot nor a delta of a protected base is in the group
of an unprotected full. -/
theorem capFulls_keeps (safe : s.id ∈ keep) (base : ∀ b, s.baseSnapshotId = some b → b ∈ keep)
    (distinct : Distinct snapshots) (present : s ∈ snapshots)
    (chosen : (capFulls keep maxFull).choose snapshots = some victim) : victim s = false := by
  obtain ⟨full, found, rfl⟩ := capFulls_choose chosen
  have unprotected := (removableFull_iff.mp (List.find?_some found)).2
  rw [Bool.eq_false_iff]
  intro gone
  rcases (mem_groupIds distinct present).mp gone with same | delta
  · exact unprotected (same ▸ safe)
  · exact unprotected (base _ delta)

theorem capTotal_keeps (safe : s.id ∈ keep)
    (chosen : (capTotal keep maxTotal).choose snapshots = some victim) : victim s = false := by
  obtain ⟨_, t, _, _, _, _, unprotected, _, rfl⟩ := capTotal_choose chosen
  exact decide_eq_false fun same => unprotected (same ▸ safe)

section
variable {m : Manifest}

theorem retain_sublist : (retain m).1.snapshots.Sublist m.snapshots :=
  Policy.evict_sublist.trans Policy.evict_sublist

@[simp] theorem retain_retention : (retain m).1.retention = m.retention := rfl
@[simp] theorem retain_lineage : (retain m).1.lineage = m.lineage := rfl
@[simp] theorem retain_ranksWritten : (retain m).1.ranksWritten = m.ranksWritten := rfl
@[simp] theorem retain_worldSize : (retain m).1.worldSize = m.worldSize := rfl

/-- The kept and the evicted together are the snapshots retention was given. -/
theorem retain_perm : ((retain m).1.snapshots ++ (retain m).2).Perm m.snapshots := by
  have second := @Policy.evict_perm _ (capTotal m.protectedSnapshotIds m.retention.effectiveTotalCap)
    ((capFulls m.protectedSnapshotIds m.retention.maxFullSnapshots).evict m.snapshots).1
  have first := @Policy.evict_perm _
    (capFulls m.protectedSnapshotIds m.retention.maxFullSnapshots) m.snapshots
  refine List.Perm.trans ?_ ((second.append_right _).trans first)
  simpa only [retain, List.append_assoc] using (List.Perm.append_left _ List.perm_append_comm)

/-- Who goes is told by the identifier. -/
theorem retain_byId : ∃ gone : Uuid → Bool, (retain m).1.snapshots = m.snapshots.filter fun s =>
    !gone s.id := by
  obtain ⟨first, left⟩ := @Policy.evict_byKey _ (capFulls m.protectedSnapshotIds m.retention.maxFullSnapshots)
    m.snapshots _ Snapshot.id fun chosen => by
      obtain ⟨full, _, rfl⟩ := capFulls_choose chosen
      exact ⟨_, fun t => rfl⟩
  obtain ⟨second, kept⟩ :=
    @Policy.evict_byKey _ (capTotal m.protectedSnapshotIds m.retention.effectiveTotalCap)
    (m.snapshots.filter fun s => !first s.id) _ Snapshot.id fun chosen => by
      obtain ⟨_, s, _, _, _, _, _, _, rfl⟩ := capTotal_choose chosen
      exact ⟨fun id => decide (id = s.id), fun t => rfl⟩
  refine ⟨fun id => first id || second id, ?_⟩
  simp only [retain, left, kept, List.filter_filter, Bool.not_or, Bool.and_comm]

/-- The first snapshot of an identifier that stays listed was the first before. -/
theorem findSnapshot_retain {s : Snapshot} {id : Uuid} (stays : (retain m).1.findSnapshot id = some s) :
    m.findSnapshot id = some s := by
  obtain ⟨gone, left⟩ := @retain_byId m
  rw [Manifest.findSnapshot, left, List.find?_filter] at stays
  have found := List.find?_some stays
  obtain ⟨stayed, named⟩ := of_decide_eq_true found
  rw [eq_of_beq named] at stayed
  rw [Manifest.findSnapshot, ← stays]
  congr 1
  funext t
  by_cases same : t.id = id
  · simp [same, stayed]
  · simp [same]

theorem evicted_mem {s : Snapshot} (gone : s ∈ (retain m).2) : s ∈ m.snapshots :=
  retain_perm.subset (List.mem_append_right _ gone)

/-- What is evicted is listed no more. -/
theorem evicted_gone {s t : Snapshot} (distinct : Distinct m.snapshots) (gone : s ∈ (retain m).2)
    (stays : t ∈ (retain m).1.snapshots) : t.id ≠ s.id := by
  have apart : (((retain m).1.snapshots ++ (retain m).2).map (·.id)).Nodup :=
    (retain_perm.map _).nodup_iff.mpr distinct
  rw [List.map_append] at apart
  intro same
  exact List.disjoint_of_nodup_append apart (List.mem_map_of_mem stays)
    (same ▸ List.mem_map_of_mem gone)

theorem retain_distinct (distinct : Distinct m.snapshots) : Distinct (retain m).1.snapshots :=
  distinct.sublist retain_sublist

theorem retain_closed (distinct : Distinct m.snapshots) (closed : Closed m.snapshots) :
    Closed (retain m).1.snapshots :=
  evict_closed capTotal_closed (distinct.sublist Policy.evict_sublist)
    (evict_closed capFulls_closed distinct closed)

/-- Whatever is protected when retention starts is still listed when it ends. -/
theorem retain_keeps_protected (distinct : Distinct m.snapshots) (closed : Closed m.snapshots)
    (present : s ∈ m.snapshots) (safe : s.id ∈ m.protectedSnapshotIds) :
    s ∈ (retain m).1.snapshots := by
  have base : ∀ b, s.baseSnapshotId = some b → b ∈ m.protectedSnapshotIds := fun _ delta =>
    Manifest.protected_base distinct closed present safe delta
  exact evict_keeps (fun _ _ => capTotal_keeps safe) (distinct.sublist Policy.evict_sublist)
    (evict_keeps (capFulls_keeps safe base) distinct present)

end

end Retention
end Moonclip
