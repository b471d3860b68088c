import Moonclip.Failures

/-! Limits as wide as the machine has words. The total they come to is a product taken
modulo 2^64: where it wraps, retention and the choice of a full go by a cap that nobody
asked for. -/
namespace Moonclip
open Library.Codec Library.Effect Library.Files

namespace RetentionPolicy

/-- The total the limits come to without wrapping, as far as a `usize` can say it. -/
def exactTotalCap (r : RetentionPolicy) : Nat :=
  r.maxTotalSnapshots.getD (min (2 ^ 64 - 1) (r.maxFullSnapshots * (1 + r.maxDeltasPerFull)))

/-- The total is given, or the product fits a word, or it wraps to the largest one. -/
def Unwrapped (r : RetentionPolicy) : Prop :=
  r.maxTotalSnapshots.isSome = true ∨ r.maxFullSnapshots * (1 + r.maxDeltasPerFull) < 2 ^ 64 ∨
    r.maxFullSnapshots * (1 + r.maxDeltasPerFull) % 2 ^ 64 = 2 ^ 64 - 1

instance (r : RetentionPolicy) : Decidable r.Unwrapped := inferInstanceAs (Decidable (_ ∨ _ ∨ _))

variable {r r' : RetentionPolicy}

/-- However the product is taken modulo 2^64, it is the product modulo 2^64. -/
theorem effectiveTotalCap_eq : r.effectiveTotalCap =
    r.maxTotalSnapshots.getD (r.maxFullSnapshots * (1 + r.maxDeltasPerFull) % 2 ^ 64) := by
  simp only [effectiveTotalCap, Nat.mul_mod, Nat.mod_mod]

theorem effectiveTotalCap_le : r.maxTotalSnapshots = none → r.effectiveTotalCap ≤ r.exactTotalCap := by
  intro free
  rw [effectiveTotalCap_eq, exactTotalCap, free]
  simp only [Option.getD_none]
  have fits := Nat.mod_lt (r.maxFullSnapshots * (1 + r.maxDeltasPerFull)) (Nat.two_pow_pos 64)
  have less := Nat.mod_le (r.maxFullSnapshots * (1 + r.maxDeltasPerFull)) (2 ^ 64)
  omega

/-- The cap is no smaller than the limits say exactly where nothing wraps below it. -/
theorem exactTotalCap_le_iff : r.exactTotalCap ≤ r.effectiveTotalCap ↔ r.Unwrapped := by
  rw [effectiveTotalCap_eq, exactTotalCap, Unwrapped]
  cases r.maxTotalSnapshots with
  | some total => simp
  | none =>
    simp only [Option.getD_none, Option.isSome_none, Bool.false_eq_true, false_or]
    generalize r.maxFullSnapshots * (1 + r.maxDeltasPerFull) = product
    omega

theorem Unwrapped.eq (unwrapped : r.Unwrapped) : r.effectiveTotalCap = r.exactTotalCap := by
  cases given : r.maxTotalSnapshots with
  | some total => simp [effectiveTotalCap, exactTotalCap, given]
  | none => exact Nat.le_antisymm (effectiveTotalCap_le given) (exactTotalCap_le_iff.mpr unwrapped)

/-- Larger limits never come to a smaller total. -/
theorem exactTotalCap_mono (free : r.maxTotalSnapshots = none) (free' : r'.maxTotalSnapshots = none)
    (fulls : r.maxFullSnapshots ≤ r'.maxFullSnapshots) (deltas : r.maxDeltasPerFull ≤ r'.maxDeltasPerFull) :
    r.exactTotalCap ≤ r'.exactTotalCap := by
  have products := Nat.mul_le_mul fulls (Nat.add_le_add_left deltas 1)
  rw [exactTotalCap, exactTotalCap, free, free']
  simp only [Option.getD_none]
  omega

end RetentionPolicy

namespace Retention
open Library.Eviction

/-- What pass 1 leaves, and pass 2 starts from. -/
def afterFulls (m : Manifest) : List Snapshot :=
  ((capFulls m.protectedSnapshotIds m.retention.maxFullSnapshots).evict m.snapshots).1

/-- Both passes, the second one under this total. -/
def retainUnder (total : Nat) (m : Manifest) : Manifest × List Snapshot :=
  let keep := m.protectedSnapshotIds
  let first := (capFulls keep m.retention.maxFullSnapshots).evict m.snapshots
  let second := (capTotal keep total).evict first.1
  ({ m with snapshots := second.1 }, first.2 ++ second.2)

/-- Retention goes by what the limits say: pass 2 takes what it would take under the
exact total, and takes something only from a list that is over it. -/
structure CalledFor (m : Manifest) : Prop where
  exactly : retain m = retainUnder m.retention.exactTotalCap m
  exceeds : ((capTotal m.protectedSnapshotIds m.retention.effectiveTotalCap).evict (afterFulls m)).2 ≠ [] →
    m.retention.exactTotalCap < ((afterFulls m).filter (·.finalized)).length

variable {m : Manifest}

theorem calledFor (unwrapped : m.retention.Unwrapped) : CalledFor m where
  exactly := by
    rw [retain, retainUnder, unwrapped.eq]
  exceeds := by
    intro evicts
    by_contra within
    have settled : (capTotal m.protectedSnapshotIds m.retention.effectiveTotalCap).Settled
      (afterFulls m) := by
      apply Or.inl
      rw [unwrapped.eq]
      exact decide_eq_false within
    rw [Policy.evict_of_settled settled] at evicts
    exact evicts rfl

end Retention

/-- The limits in force are these, and so are those on record, if any. -/
structure Limited [SerdeJson] (r : RetentionPolicy) (w : World) : Prop where
  inForce : w.manifest.retention = r
  onRecord : ∀ data index, w.disk.files.find? .manifestJson = some data →
    SerdeJson.index.fromSlice (trimZeros data) = .ok index → index.retention = r

/-- An action that leaves the limits alone, however it ends. -/
def LeavesLimits [SerdeJson] {α : Type} (r : RetentionPolicy) (act : Act α) : Prop :=
  Triple (Limited r) act (fun _ => Limited r) fun _ => Limited r

section
variable [SerdeJson] {r : RetentionPolicy} {w : World} {m : Manifest} {p : Path} {body : Bytes}

theorem Limited.relist (limited : Limited r w) (same : m.retention = r) :
    Limited r { w with manifest := m } :=
  { limited with inForce := same }

theorem Limited.put (limited : Limited r w) (p : Path) (body : Bytes) (other : p ≠ .manifestJson) :
    Limited r { w with disk := w.disk.change (.put p body) } where
  inForce := limited.inForce
  onRecord data index found := limited.onRecord data index (by
    rwa [Disk.files_change, Change.apply, FileStore.find?_put_of_ne other.symm] at found)

theorem Limited.delete (limited : Limited r w) : Limited r { w with disk := w.disk.change (.delete p) } where
  inForce := limited.inForce
  onRecord data index found := limited.onRecord data index (FileStore.find?_of_delete found)

/-- An index of what is in force. -/
theorem Limited.putIndex [LawfulSerdeJson] {text : Bytes} (limited : Limited r w) (same : m.retention = r)
    (encoded : SerdeJson.index.toVec (ManifestIo.indexOf m) = .ok text) :
    Limited r { w with disk := w.disk.change (.put .manifestJson (pad w.disk.pageSize text)) } where
  inForce := limited.inForce
  onRecord data index found decoded := by
    rw [Disk.files_change, Change.apply, FileStore.find?_put_self] at found
    obtain rfl := Option.some.inj found
    rw [trimZeros_pad (LawfulSerdeJson.index.closed encoded),
      LawfulSerdeJson.index.roundTrip encoded] at decoded
    obtain rfl := Except.ok.inj decoded
    exact same

theorem put_limits {data : Bytes} (other : p ≠ .manifestJson) : LeavesLimits r (Storage.put p data) :=
  Storage.put_spec (fun _ limited _ => limited.put _ _ other) fun _ _ limited => limited

theorem delete_limits : LeavesLimits r (Storage.delete p) :=
  Storage.delete_spec (fun _ limited => limited) fun _ limited => limited.delete

namespace ManifestIo

theorem writeRanks_limits {s : Snapshot} : LeavesLimits r (writeRanks s) :=
  Triple.returning_keep (fun _ => put_limits nofun) fun _ _ limited => limited

theorem persist_limits [LawfulSerdeJson] : LeavesLimits r persist := by
  apply Triple.get_keep
  intro w
  apply Triple.bind _ (Triple.forM fun s _ => writeRanks_limits)
  intro _
  apply Triple.modify_bind (Limited r)
  · exact fun w limited => limited.relist limited.inForce
  · intro _
    apply Triple.get_bind
    intro w
    apply Triple.learn (P := w.manifest.retention = r)
    · rintro s ⟨rfl, limited⟩
      exact limited.inForce
    · intro same
      extract_lets index
      cases encoded : SerdeJson.index.toVec index with
      | error e =>
        apply Triple.returning_error rfl
        rintro s ⟨rfl, limited⟩
        exact limited
      | ok text =>
        apply Triple.returning_ok rfl
        apply Storage.put_spec
        · rintro s ⟨rfl, limited⟩ _
          exact limited.putIndex same encoded
        · rintro s _ ⟨rfl, limited⟩
          exact limited

/-- What is read has the limits on record. -/
theorem load_limits {files : Files} {previous : Option Manifest}
    (onRecord : ∀ data index, files.find? .manifestJson = some data →
      SerdeJson.index.fromSlice (trimZeros data) = .ok index → index.retention = r)
    (read : load files previous = .ok (some m)) : m.retention = r := by
  unfold load at read
  split at read
  · simp at read
  · rename_i data found
    simp only [Library.Outcome.bind_eq_ok, Library.Outcome.mapError_eq_ok] at read
    obtain ⟨index, decoded, read⟩ := read
    obtain rfl := Option.some.inj (Except.ok.inj read)
    exact onRecord data index found decoded

end ManifestIo

namespace Coordinator

theorem applyRetention_limits [LawfulSerdeJson] : LeavesLimits r applyRetention := by
  apply Triple.get_keep
  intro w
  apply Triple.returning_keep _ fun _ _ limited => limited
  intro steps
  apply Triple.get_bind
  intro w
  split
  rename_i kept evicted settled
  apply Triple.modify_bind (Limited r)
  · rintro s ⟨rfl, limited⟩
    obtain rfl : (Retention.retain (s.manifest.syncPins steps)).1 = kept := by rw [settled]
    exact limited.relist ((Manifest.syncPins_retention (m := s.manifest)).trans limited.inForce)
  · exact fun _ => Triple.bind _ ManifestIo.persist_limits fun _ => Triple.pure fun _ limited => limited

theorem unlinkSnapshots_limits {doomed : List Snapshot} : LeavesLimits r (unlinkSnapshots doomed) := by
  apply Triple.get_keep
  intro w
  split
  · exact Triple.pure fun _ limited => limited
  · exact Triple.forM fun p _ => delete_limits

theorem reloadManifest_limits : LeavesLimits r reloadManifest := by
  apply Triple.get_bind
  intro w
  apply Triple.bind fun m s => Limited r s ∧ m.retention = r
  · apply Triple.returning
    · rintro m s read ⟨rfl, limited⟩
      refine ⟨limited, ?_⟩
      simp only [reloaded, Library.Outcome.map_eq_ok] at read
      obtain ⟨found, read, rfl⟩ := read
      cases found with
      | none => exact limited.inForce
      | some m => exact ManifestIo.load_limits limited.onRecord read
    · rintro _ s _ ⟨rfl, limited⟩
      exact limited
  · exact fun m => Triple.modified fun s start => start.1.relist start.2

section
variable [Zstd] [Xxh3] {cfg : Config} {snapId : Uuid} {base : Option Snapshot} {tensors : List TensorData}
  {context : SnapshotContext}

theorem saveRankTensors_limits : LeavesLimits r (saveRankTensors cfg snapId base tensors context) := by
  intro w limited
  refine Triple.weaken (fun s => s = w) saveRankTensors_spec (fun s (same : s = w) => same) ?_ ?_ w rfl
  · rintro entry s ⟨_, parts, _, disk, same, _⟩
    have left := limited.put (packPath snapId cfg.rank) (pad w.disk.pageSize parts.flatten) nofun
    exact ⟨same ▸ limited.inForce, disk ▸ left.onRecord⟩
  · rintro e s ⟨_, disk, same, _⟩
    exact ⟨same ▸ limited.inForce, disk ▸ limited.onRecord⟩

theorem saveSync_limits [LawfulSerdeJson] : LeavesLimits r (saveSync cfg snapId tensors context) := by
  apply Triple.get_keep
  intro w
  extract_lets base pins
  apply Triple.bind fun _ => Limited r
  · apply Triple.bracket
    · apply Triple.bind _ saveRankTensors_limits
      intro entry
      extract_lets snapshot
      apply Triple.modify_bind (Limited r)
      · exact fun w limited => limited.relist limited.inForce
      · exact fun _ => applyRetention_limits
    · exact fun w limited => { limited with }
    · exact fun _ w limited => { limited with }
    · exact fun _ w limited => { limited with }
  · exact fun evicted => unlinkSnapshots_limits

omit [Zstd] [Xxh3] in
theorem createSnapshot_limits [LawfulSerdeJson] : LeavesLimits r (createSnapshot cfg snapId context) := by
  apply Triple.get_keep
  intro w
  extract_lets base snapshot
  apply Triple.modify_bind (Limited r)
  · exact fun w limited => limited.relist limited.inForce
  · exact fun _ => ManifestIo.persist_limits

theorem saveRank_limits : LeavesLimits r (saveRank cfg snapId tensors) := by
  apply Triple.bind _ reloadManifest_limits
  intro _
  apply Triple.get_keep
  intro w
  extract_lets m
  split
  · exact Triple.throw fun _ limited => limited
  · extract_lets base pins
    apply Triple.bind fun _ => Limited r
    · apply Triple.bracket
      · exact saveRankTensors_limits
      · exact fun w limited => { limited with }
      · exact fun _ w limited => { limited with }
      · exact fun _ w limited => { limited with }
    · exact fun _ => Triple.pure fun _ limited => limited

end

theorem finalizeSnapshot_limits [LawfulSerdeJson] {cfg : Config} {snapId : Uuid} :
    LeavesLimits r (finalizeSnapshot cfg snapId) := by
  apply Triple.bind _ reloadManifest_limits
  intro _
  apply Triple.get_bind
  intro w
  apply Triple.bind fun m s => Limited r s ∧ m.retention = r
  · apply Triple.returning
    · rintro m s made ⟨rfl, limited⟩
      refine ⟨limited, ?_⟩
      simp only [finalized, Library.Outcome.bind_eq_ok] at made
      obtain ⟨shards, _, made⟩ := made
      obtain ⟨_, _, _, _, _, _, _, rfl⟩ := assemble_eq_ok made
      exact limited.inForce
    · rintro _ s _ ⟨rfl, limited⟩
      exact limited
  · intro m
    apply Triple.modify_bind (Limited r)
    · exact fun s start => start.1.relist start.2
    · exact fun _ => Triple.bind _ applyRetention_limits fun _ => unlinkSnapshots_limits

end Coordinator

namespace Recovery

theorem openStore_limits [Xxh3] [LawfulSerdeJson] {cfg : Config} {e : Enumeration}
    (same : cfg.retention = r) :
    Triple (fun w => ∀ data index, w.disk.files.find? .manifestJson = some data →
        SerdeJson.index.fromSlice (trimZeros data) = .ok index → index.retention = r)
      (openStore cfg e) (fun _ => Limited r) fun _ _ => True := by
  apply Triple.get_bind
  intro w
  apply Triple.bind fun m s => Limited r { s with manifest := m }
  · apply Triple.returning
    · rintro m s read ⟨rfl, onRecord⟩
      refine ⟨?_, onRecord⟩
      simp only [loadManifest, Library.Outcome.bind_eq_ok] at read
      obtain ⟨found, loaded, read⟩ := read
      cases found with
      | some m' =>
        obtain rfl : m' = m := Except.ok.inj read
        exact ManifestIo.load_limits onRecord loaded
      | none =>
        obtain rfl := Except.ok.inj read
        exact same
    · exact fun _ _ _ _ => trivial
  · intro m
    apply Triple.modify_bind (Limited r)
    · exact fun s limited => { limited with }
    · intro _
      split
      · apply Triple.bind fun _ => Limited r
        · apply Triple.get_keep
          intro w
          extract_lets files orphans candidates
          split
          · exact Triple.throw fun _ _ => trivial
          split
          extract_lets rejects recovered snapshots
          apply Triple.modify_bind (Limited r)
          · exact fun s limited => limited.relist limited.inForce
          · intro _
            exact Triple.bind _ (Triple.forM fun p _ => delete_limits) fun _ =>
              Triple.pure fun _ limited => limited
        · intro recovered
          split
          · exact Triple.ignoring ManifestIo.persist_limits
          · exact Triple.pure fun _ limited => limited
      · exact Triple.pure fun _ limited => limited

end Recovery

variable [Zstd] [Xxh3]

/-- Stores a configuration's limits rule from their first opening: opened again, saved to
by one rank or by several, and whatever of it succeeded. -/
inductive SavingRun (r : RetentionPolicy) : World → Prop where
  | fresh (cfg : Config) (e : Enumeration) (w opened : World) (limits : cfg.retention = r)
      (empty : w.disk.files = .empty) (ran : Recovery.openStore cfg e w = .ok () opened) : SavingRun r opened
  | reopened (cfg : Config) (e : Enumeration) (w opened : World) (before : SavingRun r w)
      (limits : cfg.retention = r) (ran : Recovery.openStore cfg e w = .ok () opened) : SavingRun r opened
  | saved (cfg : Config) (id : Uuid) (tensors : List TensorData) (context : SnapshotContext) (w : World)
      (before : SavingRun r w) : SavingRun r (finalState (Coordinator.saveSync cfg id tensors context) w)
  | created (cfg : Config) (id : Uuid) (context : SnapshotContext) (w : World) (before : SavingRun r w) :
      SavingRun r (finalState (Coordinator.createSnapshot cfg id context) w)
  | rankSaved (cfg : Config) (id : Uuid) (tensors : List TensorData) (w : World) (before : SavingRun r w) :
      SavingRun r (finalState (Coordinator.saveRank cfg id tensors) w)
  | finalized (cfg : Config) (id : Uuid) (w : World) (before : SavingRun r w) :
      SavingRun r (finalState (Coordinator.finalizeSnapshot cfg id) w)

theorem SavingRun.limited [LawfulSerdeJson] (run : SavingRun r w) : Limited r w := by
  induction run with
  | fresh cfg e w opened limits empty ran =>
    apply (Recovery.openStore_limits limits).ok _ ran
    intro data index found
    rw [empty] at found
    contradiction
  | reopened cfg e w opened before limits ran ih =>
      exact (Recovery.openStore_limits limits).ok ih.onRecord ran
  | saved cfg id tensors context w before ih => exact Coordinator.saveSync_limits.final ih
  | created cfg id context w before ih => exact Coordinator.createSnapshot_limits.final ih
  | rankSaved cfg id tensors w before ih => exact Coordinator.saveRank_limits.final ih
  | finalized cfg id w before ih => exact Coordinator.finalizeSnapshot_limits.final ih

namespace Coordinator
variable {after : World} {cfg : Config} {snapId : Uuid}

omit [Zstd] [Xxh3] in
/-- Finalizing fills in the snapshot's ranks and lets retention choose. -/
theorem finalizeSnapshot_ok (ran : finalizeSnapshot cfg snapId w = .ok () after) :
    ∃ mid m steps written, reloadManifest w = .ok () mid ∧
      finalized cfg mid.disk.files snapId mid.manifest = .ok m ∧
      readPins mid.disk.files = .ok steps ∧
      after.manifest = { (Retention.retain (m.syncPins steps)).1 with ranksWritten := written } := by
  simp only [finalizeSnapshot, bind_eq_ok, get_eq_ok, returning_eq_ok, modify_eq_ok] at ran
  obtain ⟨_, mid, reread, _, _, ⟨rfl, rfl⟩, m, _, ⟨made, rfl⟩, _, _, rfl, evicted, settled,
    ran, removed⟩ := ran
  obtain ⟨steps, written, read, _, _, left⟩ := applyRetention_ok ran
  have kept : after.manifest = settled.manifest :=
    (@unlinkSnapshots_manifest (· = settled.manifest) evicted fun _ _ => True).ok rfl removed
  exact ⟨_, m, steps, written, reread, made, read, kept.trans left⟩

/-- What a save submits to retention once its ranks are written. -/
def submitted (cfg : Config) (snapId : Uuid) (context : SnapshotContext) (entry : RankEntry)
    (steps : Option (List Nat)) (w : World) : Manifest :=
  ({ w.manifest with snapshots := w.manifest.snapshots ++
    [snapshotOf cfg snapId (chooseBase w.manifest w.inFlight context.step) context entry] } :
      Manifest).syncPins steps

/-- Retention and the choice of a full go by what the limits say: no full is forced
for a cap of one they do not come to, and whatever a save or a finalization takes off
the list is what the exact total takes. -/
structure HeldTo (r : RetentionPolicy) (w : World) : Prop where
  inForce : w.manifest.retention = r
  forced : w.manifest.retention.effectiveTotalCap ≤ 1 → r.exactTotalCap ≤ 1
  saves : ∀ cfg id tensors context after, saveSync cfg id tensors context w = .ok () after →
    ∃ entry steps, Retention.CalledFor (submitted cfg id context entry steps w) ∧ after.manifest.snapshots =
      (Retention.retainUnder r.exactTotalCap (submitted cfg id context entry steps w)).1.snapshots
  finalizes : ∀ cfg id after, finalizeSnapshot cfg id w = .ok () after →
    ∃ mid m steps, reloadManifest w = .ok () mid ∧ finalized cfg mid.disk.files id mid.manifest = .ok m ∧
      Retention.CalledFor (m.syncPins steps) ∧
        after.manifest.snapshots = (Retention.retainUnder r.exactTotalCap (m.syncPins steps)).1.snapshots

theorem heldTo [LawfulSerdeJson] (run : SavingRun r w) (unwrapped : r.Unwrapped) : HeldTo r w where
  inForce := run.limited.inForce
  forced := by
    rw [run.limited.inForce, unwrapped.eq]
    exact id
  saves cfg id tensors context after ran := by
    obtain ⟨entry, steps, written, _, left⟩ := saveSync_ok ran
    have same : (submitted cfg id context entry steps w).retention = r :=
      (Manifest.syncPins_retention).trans run.limited.inForce
    have called := Retention.calledFor (m := submitted cfg id context entry steps w) (same ▸ unwrapped)
    have list : after.manifest.snapshots =
        (Retention.retain (submitted cfg id context entry steps w)).1.snapshots := by
      rw [left]
      rfl
    exact ⟨entry, steps, called, by rw [list, called.exactly, same]⟩
  finalizes cfg id after ran := by
    obtain ⟨mid, m, steps, written, reread, made, _, left⟩ := finalizeSnapshot_ok ran
    have limited := reloadManifest_limits.ok run.limited reread
    have same : (m.syncPins steps).retention = r := by
      simp only [finalized, Library.Outcome.bind_eq_ok] at made
      obtain ⟨shards, _, made⟩ := made
      obtain ⟨_, _, _, _, _, _, _, rfl⟩ := assemble_eq_ok made
      exact (Manifest.syncPins_retention).trans limited.inForce
    have called := Retention.calledFor (m := m.syncPins steps) (same ▸ unwrapped)
    exact ⟨mid, m, steps, reread, made, called, by rw [left, called.exactly, same]⟩

end Coordinator

/-- The cap is as large as the limits come to exactly where the product does not wrap
below a word; there it grows with them, and over every run of saves nothing is evicted
for the total, and no full forced for a cap of one, that they do not call for. -/
theorem totalCap_exact_iff [LawfulSerdeJson] :
    (∀ r : RetentionPolicy, r.exactTotalCap ≤ r.effectiveTotalCap ↔ r.Unwrapped) ∧
    (∀ r r' : RetentionPolicy, r.Unwrapped → r'.Unwrapped → r.maxTotalSnapshots = none →
      r'.maxTotalSnapshots = none → r.maxFullSnapshots ≤ r'.maxFullSnapshots →
      r.maxDeltasPerFull ≤ r'.maxDeltasPerFull → r.effectiveTotalCap ≤ r'.effectiveTotalCap) ∧
    ∀ (r : RetentionPolicy) (w : World), SavingRun r w → r.Unwrapped → Coordinator.HeldTo r w := by
  refine ⟨fun r => RetentionPolicy.exactTotalCap_le_iff, ?_, fun r w => Coordinator.heldTo⟩
  intro r r' unwrapped unwrapped' free free' fulls deltas
  rw [unwrapped.eq, unwrapped'.eq]
  exact RetentionPolicy.exactTotalCap_mono free free' fulls deltas

end

namespace Wide
open Coordinator

/-- A store that is to keep 2^63 fulls, each with a delta. -/
def config : Config := { OneFull.config with retention := ⟨2 ^ 63, 1, 5000, none⟩ }

def listing (id : Uuid) (step : Nat) : Manifest :=
  ⟨3, 1, [emptyFull id step false], config.retention, .default, {id}⟩

abbrev serde : SerdeJson :=
  JsonText.serde (fun _ => []) [ManifestIo.indexOf (listing 1 100), ManifestIo.indexOf (listing 2 101)]
    [⟨1, (emptyFull 1 100 false).ranks⟩, ⟨2, (emptyFull 2 101 false).ranks⟩]
    [OneFull.describing 1 100, OneFull.describing 2 101] []

def opened : World :=
  @finalState _ _ _
    (@Recovery.openStore serde Linked.xxh3 config
    ⟨fun dirs => dirs, fun _ => .refl _, fun entries => entries, fun _ => .refl _⟩)
    OneFull.blank

def first : World :=
  @finalState _ _ _ (@saveSync serde Linked.zstd Linked.xxh3 config 1 [] ⟨100, 0, ∅⟩) opened

def second : World :=
  @finalState _ _ _ (@saveSync serde Linked.zstd Linked.xxh3 config 2 [] ⟨101, 0, ∅⟩) first

end Wide

namespace Coordinator

/-- The total of 2^63 fulls and a delta each wraps to nothing: the second save is made a
full, and the first is evicted, with a cap that allows for all the snapshots there can be. -/
theorem totalCap_wraps :
    let _ := Linked.zstd
    let _ := Linked.xxh3
    let _ := Wide.serde
    Wide.config.retention.exactTotalCap = 2 ^ 64 - 1 ∧ Wide.config.retention.effectiveTotalCap = 0 ∧
      ∃ opened first second, Recovery.openStore Wide.config
        ⟨fun dirs => dirs, fun _ => .refl _, fun entries => entries, fun _ => .refl _⟩
          OneFull.blank = .ok () opened ∧
        saveSync Wide.config 1 [] ⟨100, 0, ∅⟩ opened = .ok () first ∧
        first.manifest.snapshots.map (·.id) = [1] ∧ first.manifest.shouldForceFull 101 = true ∧
        saveSync Wide.config 2 [] ⟨101, 0, ∅⟩ first = .ok () second ∧
        second.manifest.snapshots.map (·.id) = [2] := by
  intro zstd xxh3 serde
  have ran :
    returns (Recovery.openStore Wide.config ⟨fun dirs => dirs, fun _ => .refl _, fun entries =>
    entries, fun _ => .refl _⟩)
        OneFull.blank = true ∧
      returns (saveSync Wide.config 1 [] ⟨100, 0, ∅⟩) Wide.opened = true ∧
      Wide.first.manifest.snapshots.map (·.id) = [1] ∧ Wide.first.manifest.shouldForceFull 101 = true ∧
      returns (saveSync Wide.config 2 [] ⟨101, 0, ∅⟩) Wide.first = true ∧
      Wide.second.manifest.snapshots.map (·.id) = [2] := by
    decide +kernel
  obtain ⟨opening, saving, listed, forced, again, left⟩ := ran
  exact ⟨by decide, by decide, Wide.opened, Wide.first, Wide.second, ok_finalState opening,
    ok_finalState saving,
    listed, forced, ok_finalState again, left⟩

/-- One full is asked for, with ten deltas: the run that saves it goes by a cap of eleven. -/
theorem totalCap_exact_once :
    let _ := Linked.zstd
    let _ := Linked.xxh3
    let _ := OneFull.serde
    OneFull.first.manifest.snapshots.map (·.id) = [1] ∧ HeldTo OneFull.config.retention OneFull.first := by
  intro zstd xxh3 serde
  have : LawfulSerdeJson :=
    JsonText.serde_lawful _ (by decide +kernel) (by simp) (by decide +kernel) (by simp)
  have ran :
    returns (Recovery.openStore OneFull.config ⟨fun dirs => dirs, fun _ => .refl _, fun entries =>
    entries, fun _ => .refl _⟩)
        OneFull.blank = true ∧
      OneFull.first.manifest.snapshots.map (·.id) = [1] := by
    decide +kernel
  have run : SavingRun OneFull.config.retention OneFull.first :=
    .saved OneFull.config 1 [] ⟨100, 0, ∅⟩ _
      (.fresh OneFull.config _ OneFull.blank _ rfl rfl (ok_finalState ran.1))
  exact ⟨ran.2, totalCap_exact_iff.2.2 _ _ run (by decide)⟩

end Coordinator
end Moonclip
