import Moonclip.RetentionProofs

/-! What retention settles on. The protected snapshots are the same after the
passes as before them, so running the passes again finds both settled; and pass 1
has a closed form, which says when it reaches the newest snapshot. -/
namespace Moonclip
namespace Retention
open Library.Eviction

section
variable {m : Manifest} {id : Uuid}

theorem retain_rollbackSnapshotIds (distinct : Distinct m.snapshots) (closed : Closed m.snapshots) :
    (retain m).1.rollbackSnapshotIds = m.rollbackSnapshotIds := by
  unfold Manifest.rollbackSnapshotIds
  rw [retain_lineage]
  by_cases disabled : m.lineage.rollbackIntervalSteps = 0 ∨ m.lineage.maxRollbackSnapshots = 0
  · rw [if_pos disabled, if_pos disabled]
  · rw [if_neg disabled, if_neg disabled]
    congr 2
    have shrunk : List.Sublist (retain m).1.snapshots.reverse m.snapshots.reverse :=
      retain_sublist.reverse
    have nodup : m.snapshots.reverse.Nodup := List.nodup_reverse.mpr distinct.nodup
    refine take_eq_of_sublist (shrunk.filter _) (nodup.filter _) fun s newest => ?_
    have eligible := List.mem_filter.mp (List.mem_of_mem_take newest)
    have present : s ∈ m.snapshots := List.mem_reverse.mp eligible.1
    have rollback : s.id ∈ m.rollbackSnapshotIds := by
      simp only [Manifest.rollbackSnapshotIds, if_neg disabled, List.mem_reverse, List.mem_map]
      exact ⟨s, newest, rfl⟩
    have kept := retain_keeps_protected distinct closed present
      (Manifest.mem_protectedSnapshotIds.mpr (.inl rollback))
    exact List.mem_filter.mpr ⟨List.mem_reverse.mpr kept, eligible.2⟩

/-- Eviction protects nothing anew and exposes nothing. -/
theorem retain_protectedSnapshotIds (distinct : Distinct m.snapshots)
    (closed : Closed m.snapshots) :
    (retain m).1.protectedSnapshotIds = m.protectedSnapshotIds := by
  have pins : (retain m).1.snapshots.filter (·.pinned) = m.snapshots.filter (·.pinned) :=
    filter_eq_of_sublist retain_sublist distinct.nodup fun s present pinned =>
      retain_keeps_protected distinct closed present
        (Manifest.mem_protectedSnapshotIds.mpr (.inr ⟨s, present, pinned, .inl rfl⟩))
  simp only [Manifest.protectedSnapshotIds, retain_rollbackSnapshotIds distinct closed, pins]

theorem capFulls_settled {snapshots : List Snapshot} {keep : List Uuid} {maxFull : Nat} :
    (capFulls keep maxFull).Settled snapshots ↔
      (snapshots.filter Snapshot.isFull).length ≤ maxFull ∨
        ∀ s ∈ snapshots, s.isFull = true → s.id ∈ keep := by
  simp [Policy.Settled, capFulls, removableFull]

/-- Pass 2 only takes snapshots away, which cannot unsettle pass 1. -/
theorem retain_fulls_settled :
    (capFulls m.protectedSnapshotIds m.retention.maxFullSnapshots).Settled
      (retain m).1.snapshots := by
  have first : (capFulls m.protectedSnapshotIds m.retention.maxFullSnapshots).Settled
      ((capFulls m.protectedSnapshotIds m.retention.maxFullSnapshots).evict m.snapshots).1 :=
    Policy.evict_settled
  have shrunk : List.Sublist (retain m).1.snapshots
      ((capFulls m.protectedSnapshotIds m.retention.maxFullSnapshots).evict m.snapshots).1 :=
    Policy.evict_sublist
  rw [capFulls_settled] at first ⊢
  exact first.imp (fun within => ((shrunk.filter _).length_le).trans within)
    fun safe s present => safe s (shrunk.subset present)

theorem retain_total_settled :
    (capTotal m.protectedSnapshotIds m.retention.effectiveTotalCap).Settled
      (retain m).1.snapshots :=
  Policy.evict_settled

theorem newest?_eq_none {snapshots : List Snapshot} :
    newest? snapshots = none ↔ snapshots.filter (·.finalized) = [] := by
  simp [newest?]

/-- What keeps a finalized snapshot in a store over its total. -/
def Held (m : Manifest) (s : Snapshot) : Prop :=
  s.id ∈ m.protectedSnapshotIds ∨
    s.baseSnapshotId = none ∧ ∃ d ∈ m.snapshots, d.baseSnapshotId = some s.id

theorem retain_total_capped (distinct : Distinct m.snapshots) (closed : Closed m.snapshots) :
    ((retain m).1.snapshots.filter (·.finalized)).length ≤ m.retention.effectiveTotalCap ∨
      ∀ s ∈ (retain m).1.snapshots, s.finalized = true →
        (newest? (retain m).1.snapshots).map (·.id) ≠ some s.id → Held (retain m).1 s := by
  rcases retain_total_settled (m := m) with within | stuck
  · exact .inl (by simpa [capTotal] using within)
  · right
    intro s present finalized older
    have candidate := List.mem_filter.mpr ⟨present, finalized⟩
    cases last : newest? (retain m).1.snapshots with
    | none => simp [newest?_eq_none.mp last] at candidate
    | some newest =>
      have other : s.id ≠ newest.id := fun same => older (by simp [last, same])
      simp only [capTotal, last, Option.bind_some, Option.map_eq_none_iff,
        List.find?_eq_none] at stuck
      have blocked := stuck s candidate
      simp only [removable, Bool.and_eq_true, bne_iff_ne, Bool.not_eq_true', Bool.or_eq_true,
        List.contains_eq_mem, decide_eq_false_iff_not, List.any_eq_false, beq_iff_eq,
        not_and, not_or] at blocked
      rw [Held, retain_protectedSnapshotIds distinct closed]
      by_cases safe : s.id ∈ m.protectedSnapshotIds
      · exact .inl safe
      · obtain ⟨full, needed⟩ := blocked ⟨other, safe⟩
        push Not at needed
        exact .inr ⟨by simpa using full, needed⟩

/-- A list retention has been over is one it leaves alone. -/
theorem retain_idempotent (distinct : Distinct m.snapshots) (closed : Closed m.snapshots) :
    retain (retain m).1 = ((retain m).1, []) := by
  have first := Policy.evict_of_settled (retain_fulls_settled (m := m))
  have second := Policy.evict_of_settled (retain_total_settled (m := m))
  rw [retain, retain_protectedSnapshotIds distinct closed]
  simp only [retain_retention, first, second, List.append_nil]
  rfl

end

section
variable {snapshots : List Snapshot} {keep : List Uuid} {maxFull : Nat}

/-- The fulls pass 1 gives up: as many as there are too many, the oldest of the
unprotected ones. -/
def surplus (keep : List Uuid) (maxFull : Nat) (snapshots : List Snapshot) : List Uuid :=
  ((snapshots.filter (removableFull keep)).take
    ((snapshots.filter Snapshot.isFull).length - maxFull)).map (·.id)

theorem mem_group_iff_carrier (distinct : Distinct snapshots) (hf : full ∈ snapshots)
    (isFull : full.isFull = true) (ht : t ∈ snapshots) :
    t.id ∈ groupIds snapshots full.id ↔ t.carrier = full.id := by
  rw [← List.contains_iff_mem, mem_groupIds distinct ht]
  constructor
  · rintro (same | delta)
    · obtain rfl := distinct.eq_of_id ht hf same
      exact Snapshot.carrier_of_isFull isFull
    · simp [Snapshot.carrier, delta]
  · intro same
    cases base : t.baseSnapshotId with
    | none => exact .inl (by simpa [Snapshot.carrier, base] using same)
    | some b => exact .inr (by simpa [Snapshot.carrier, base] using same)

/-- One removal takes the head of the surplus and nothing else of it. -/
theorem surplus_step (distinct : Distinct snapshots)
    (exceeds : (capFulls keep maxFull).exceeds snapshots = true)
    (found : snapshots.find? (removableFull keep) = some full) :
    surplus keep maxFull snapshots = full.id ::
      surplus keep maxFull (snapshots.filter fun t => !(groupIds snapshots full.id).contains t.id) := by
  have hf : full ∈ snapshots := List.mem_of_find?_eq_some found
  have removable := List.find?_some found
  have isFull := (removableFull_iff.mp removable).1
  have others : ∀ p : Snapshot → Bool, (∀ t, p t = true → t.isFull = true) →
      (snapshots.filter fun t => !(groupIds snapshots full.id).contains t.id).filter p =
        (snapshots.filter p).filter (· != full) := by
    intro p fulls
    rw [List.filter_filter, List.filter_filter]
    refine List.filter_congr fun t ht => ?_
    cases pt : p t with
    | false => simp
    | true =>
      have outside : t.id ∈ groupIds snapshots full.id ↔ t = full := by
        rw [mem_group_iff_carrier distinct hf isFull ht, Snapshot.carrier_of_isFull (fulls t pt)]
        exact ⟨distinct.eq_of_id ht hf, fun same => same ▸ rfl⟩
      simp [outside, bne, BEq.beq]
  have count : ((snapshots.filter Snapshot.isFull).filter (· != full)).length + 1 =
      (snapshots.filter Snapshot.isFull).length := by
    have nodup := distinct.nodup.filter Snapshot.isFull
    have present : full ∈ snapshots.filter Snapshot.isFull := List.mem_filter.mpr ⟨hf, isFull⟩
    have shorter := List.length_erase_add_one present
    rwa [nodup.erase_eq_filter] at shorter
  have head : snapshots.filter (removableFull keep) =
      full :: (snapshots.filter (removableFull keep)).filter (· != full) := by
    have nodup := distinct.nodup.filter (removableFull keep)
    rw [← List.head?_filter] at found
    obtain ⟨rest, split⟩ := List.head?_eq_some_iff.mp found
    rw [split] at nodup ⊢
    have fresh := (List.nodup_cons.mp nodup).1
    have others : rest.filter (· != full) = rest :=
      List.filter_eq_self.mpr fun t ht => bne_iff_ne.mpr fun same => fresh (same ▸ ht)
    simp [others]
  simp only [capFulls, decide_eq_true_eq] at exceeds
  rw [surplus, surplus, others _ fun t removable => (removableFull_iff.mp removable).1,
    others _ fun t full => full]
  obtain ⟨excess, counted⟩ : ∃ n, (snapshots.filter Snapshot.isFull).length - maxFull = n + 1 :=
    ⟨(snapshots.filter Snapshot.isFull).length - maxFull - 1, by omega⟩
  have fewer : ((snapshots.filter Snapshot.isFull).filter (· != full)).length - maxFull = excess := by
    omega
  conv_lhs => rw [head, counted, List.take_succ_cons, List.map_cons]
  rw [fewer]

/-- Pass 1 in one go: a snapshot stays unless its carrier is surplus. -/
theorem capFulls_evict (distinct : Distinct snapshots) :
    ((capFulls keep maxFull).evict snapshots).1 =
      snapshots.filter fun t => !(surplus keep maxFull snapshots).contains t.carrier := by
  refine Policy.evict_induction (p := capFulls keep maxFull)
    (P := fun items kept _ => Distinct items →
      kept = items.filter fun t => !(surplus keep maxFull items).contains t.carrier)
    (fun {items} settled distinct => ?_)
      (fun {items victim kept evicted} exceeds chosen rest distinct => ?_) distinct
  · have nothing : surplus keep maxFull items = [] := by
      rcases settled with within | stuck
      · simp only [capFulls, decide_eq_false_iff_not, Nat.not_lt] at within
        simp [surplus, Nat.sub_eq_zero_of_le within]
      · simp only [capFulls, Option.map_eq_none_iff, List.find?_eq_none] at stuck
        have nobody : items.filter (removableFull keep) = [] := List.filter_eq_nil_iff.mpr stuck
        simp [surplus, nobody]
    simp [nothing]
  · obtain ⟨full, found, rfl⟩ := capFulls_choose chosen
    have hf : full ∈ items := List.mem_of_find?_eq_some found
    have isFull := (removableFull_iff.mp (List.find?_some found)).1
    rw [rest (distinct.sublist List.filter_sublist), surplus_step distinct exceeds found,
      List.filter_filter]
    refine List.filter_congr fun t ht => ?_
    have group := mem_group_iff_carrier distinct hf isFull ht
    simp [group, Bool.and_comm]

end

theorem newest?_mem {snapshots : List Snapshot} (last : newest? snapshots = some newest) :
    newest ∈ snapshots ∧ newest.finalized = true := by
  simpa using List.mem_filter.mp (List.mem_of_getLast? last)

/-- Whoever was newest before some left is newest still, if it stayed. -/
theorem newest?_sublist {before after : List Snapshot} (shrunk : List.Sublist after before)
    (distinct : Distinct before) (last : newest? before = some newest) (stays : newest ∈ after) :
    newest? after = some newest := by
  have finalized := (newest?_mem last).2
  have nodup : (before.filter (·.finalized)).reverse.Nodup :=
    List.nodup_reverse.mpr (distinct.nodup.filter _)
  have shrunk := (shrunk.filter (·.finalized)).reverse
  rw [newest?, ← List.head?_reverse] at last ⊢
  have first := take_eq_of_sublist (n := 1) shrunk nodup fun s hs => by
    rw [List.take_one, last] at hs
    obtain rfl : s = newest := by simpa using hs
    exact List.mem_reverse.mpr (List.mem_filter.mpr ⟨stays, finalized⟩)
  rw [List.take_one, List.take_one, last] at first
  simpa using congrArg List.head? first

/-- Pass 2 never takes the newest finalized snapshot. -/
theorem capTotal_keeps_newest {snapshots : List Snapshot} {keep : List Uuid} {maxTotal : Nat}
    (distinct : Distinct snapshots) (last : newest? snapshots = some newest) :
    newest ∈ ((capTotal keep maxTotal).evict snapshots).1 := by
  have stays := Policy.evict_invariant (p := capTotal keep maxTotal)
    (P := fun items => Distinct items ∧ newest? items = some newest)
    (fun {items victim} holds exceeds chosen => ?_) ⟨distinct, last⟩
  · exact (newest?_mem stays.2).1
  · obtain ⟨other, s, lastOther, _, _, older, _, _, rfl⟩ := capTotal_choose chosen
    obtain rfl : newest = other := by simpa [holds.2] using lastOther
    have stays : newest ∈ items.filter fun t => !decide (t.id = s.id) :=
      List.mem_filter.mpr ⟨(newest?_mem holds.2).1, by simpa using Ne.symm older⟩
    exact ⟨holds.1.sublist List.filter_sublist,
      newest?_sublist List.filter_sublist holds.1 holds.2 stays⟩

/-- The newest finalized snapshot outlives retention unless pass 1 counts it, or
the full it is computed against, among the surplus. -/
theorem retain_newest {m : Manifest} (distinct : Distinct m.snapshots)
    (last : newest? m.snapshots = some newest) :
    newest ∈ (retain m).1.snapshots ↔
      newest.carrier ∉ surplus m.protectedSnapshotIds m.retention.maxFullSnapshots m.snapshots := by
  have first := @capFulls_evict m.snapshots m.protectedSnapshotIds m.retention.maxFullSnapshots distinct
  have listed := (newest?_mem last).1
  have shrunk : List.Sublist
      ((capFulls m.protectedSnapshotIds m.retention.maxFullSnapshots).evict m.snapshots).1
      m.snapshots := Policy.evict_sublist
  have survives : newest ∈
      ((capFulls m.protectedSnapshotIds m.retention.maxFullSnapshots).evict m.snapshots).1 ↔
      newest.carrier ∉ surplus m.protectedSnapshotIds m.retention.maxFullSnapshots m.snapshots := by
    rw [first, List.mem_filter]
    simp [listed]
  refine Iff.trans ⟨fun kept => Policy.evict_sublist.subset kept, fun kept => ?_⟩ survives
  exact capTotal_keeps_newest (distinct.sublist shrunk) (newest?_sublist shrunk distinct last kept)

end Retention
end Moonclip
