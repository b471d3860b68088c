import Moonclip.Ledgers
import Moonclip.Runs

/-! A store over its whole life: the threads of the coordinator that has it open, crashes
that leave some of what was written, disks brought back from a remote, processes that
open it again. Loading some tensors agrees with loading all of them throughout. -/
namespace Moonclip
open Library.Effect Library.Files Library.Steps

/-- The coordinator that has the store open, and what its threads are at. -/
structure Life where
  cfg : Config
  threads : Threads

/-- What happens to a store. After a crash, or on another disk, there is `left` of it. -/
inductive LifeEvent where
  | thread (event : ThreadEvent)
  | restore (remote : Files)
  | restart (cfg : Config) (e : Enumeration) (left : Files)

namespace Life

/-- The store's disk, with these files on it. -/
def worldOf (s : Life) (left : Files) : World :=
  { s.threads.world with disk := { s.threads.world.disk with files := left } }

def step [SerdeJson] [Zstd] [Xxh3] (s : Life) : LifeEvent → Option Life
  | .thread event => (s.threads.step s.cfg event).map fun t => { s with threads := t }
  | .restore remote => some { s with threads := { s.threads with
      world := finalState (Coordinator.restoreFromRemote s.cfg (some remote)) s.threads.world } }
  | .restart cfg e left =>
    match Recovery.openStore cfg e (s.worldOf left) with
    | .ok _ w => some ⟨cfg, ⟨w, .idle, [], .idle, s.threads.drawn⟩⟩
    | .error _ _ => none

/-- Every file of these was put there once. -/
def Written (s : Life) (files : Files) : Prop :=
  ∀ p body, files.find? p = some body → .put p body ∈ s.threads.world.disk.journal

/-- No two tensors of a save have one name, and files come from nowhere but the store. -/
def Plausible (s : Life) : LifeEvent → Prop
  | .thread (.beginSave _ tensors _) => (tensors.map (·.name)).Nodup
  | .thread (.beginRank _ tensors) => (tensors.map (·.name)).Nodup
  | .thread (.otherRank _ _ _ tensors) => (tensors.map (·.name)).Nodup
  | .thread _ => True
  | .restore remote => s.Written remote
  | .restart _ _ left => s.Written left

/-- Nothing was ever put on the disk, and it takes no file of 2^64 bytes. -/
structure Fresh (s : Life) : Prop where
  empty : s.threads.world.disk.files = .empty
  unused : s.threads.world.disk.journal = []
  bounded : ∀ p body, s.threads.world.disk.accepts p body = true → body.length < 2 ^ 64
  unlisted : s.threads.world.manifest.snapshots = []
  saver : s.threads.saver = .idle
  merger : s.threads.merger = .idle

end Life

/-- What a pending save is about to write or list is in order. -/
def Saver.InOrder : Saver → Prop
  | .writing _ _ tensors _ _ => (tensors.map (·.name)).Nodup
  | .listing _ _ _ entry => Sheet entry.tensors
  | .finalizing _ shards => Ledger shards
  | _ => True

/-- What a pending merge folds, and what it has written, is in order. -/
def MergeStage.InOrder : MergeStage → Prop
  | .folding base _ last _ _ _ ranks => Ledger base.ranks ∧ Ledger last.ranks ∧ ∀ e ∈ ranks, Sheet e.2.tensors
  | _ => True

/-- The store is tidy, and so is whatever its threads are at. -/
structure Threads.InOrder [SerdeJson] (s : Threads) : Prop where
  tidy : Tidy s.world
  saver : s.saver.InOrder
  merger : s.merger.InOrder

section
variable [SerdeJson]

theorem Removal.next_tidy {w : World} {r : Removal} (tidy : Tidy w) : Tidy (r.next w).1 := by
  unfold Removal.next
  split
  · split <;> exact tidy
  · exact tidy
  · exact delete_tidies.final tidy

namespace RemoteSync
variable {remote : Files} {p : Path}

theorem copyFile_tidies (order : ∀ p body, remote.find? p = some body → InOrder p body) :
    Tidies (copyFile remote Storage.putExact p) := by
  unfold copyFile
  cases found : remote.find? p with
  | none => exact Triple.pure fun _ tidy => tidy
  | some body =>
    exact Storage.putExact_spec (fun w tidy => tidy.put (order p body found)) fun _ _ tidy => tidy

theorem pull_tidies {files : List Path} (order : ∀ p body, remote.find? p = some body → InOrder p body) :
    Tidies (pull remote files) :=
  Triple.get_keep fun _ => Triple.forM fun _ _ => copyFile_tidies order

end RemoteSync

namespace Coordinator
variable {m : Manifest}

theorem recordDropped_tidies [LawfulSerdeJson] {read fresh : Manifest}
    (lists : ∀ s ∈ fresh.snapshots, Ledger s.ranks) :
    Triple Tidy (recordDropped read fresh) (fun m w => Tidy w ∧ ∀ s ∈ m.snapshots, Ledger s.ranks)
      fun _ => Tidy := by
  unfold recordDropped
  extract_lets dropped
  split
  · apply Triple.get_bind
    intro w
    extract_lets held
    apply Triple.learn (P := ∀ s ∈ held.snapshots, Ledger s.ranks)
    · rintro s ⟨rfl, tidy⟩
      exact tidy.lists
    · intro before
      apply Triple.modify_bind Tidy fun s start => (tidy_of_read start).relist lists
      intro _
      apply Triple.bind _ (Triple.ignoring ManifestIo.persist_tidies)
      intro _
      apply Triple.get_bind
      intro w₁
      apply Triple.modify_bind fun s => Tidy s ∧ ∀ t ∈ w₁.manifest.snapshots, Ledger t.ranks
      · rintro s ⟨rfl, tidy⟩
        exact ⟨tidy.relist before, tidy.lists⟩
      · exact fun _ => Triple.pure fun _ left => left
  · exact Triple.pure fun _ tidy => ⟨tidy, lists⟩

/-- Files that were put in order on one disk are in order on another. -/
theorem restoreFromRemote_tidies [LawfulSerdeJson] {cfg : Config} {remote : Files}
    (order : ∀ p body, remote.find? p = some body → InOrder p body) :
    Tidies (restoreFromRemote cfg (some remote)) := by
  apply Triple.bind fun _ => Tidy
  · apply Triple.bind _ (RemoteSync.copyFile_tidies order)
    exact fun _ => Triple.get_keep fun _ => Triple.pure fun _ tidy => tidy
  · intro there
    split
    · exact Triple.pure fun _ tidy => tidy
    · extract_lets listing
      apply Triple.bind _ (RemoteSync.pull_tidies order)
      intro _
      apply Triple.get_bind
      intro w
      extract_lets files
      apply Triple.bind fun m s => Tidy s ∧ ∀ t ∈ m.snapshots, Ledger t.ranks
      · apply Triple.returning
        · rintro m s read ⟨rfl, tidy⟩
          exact ⟨tidy, Recovery.ledger_loadManifest tidy read⟩
        · exact fun _ _ _ => tidy_of_read
      · intro read
        apply Triple.learn (P := ∀ t ∈ read.snapshots, Ledger t.ranks) fun _ start => start.2
        intro lists
        apply Triple.bind fun m s => Tidy s ∧ ∀ t ∈ m.snapshots, Ledger t.ranks
        · apply Triple.weaken Tidy (recordDropped_tidies _) (fun _ start => start.1) (fun _ _ left => left)
            fun _ _ tidy => tidy
          intro s kept
          exact lists s (List.mem_of_mem_filter (List.mem_of_mem_filter kept))
        · intro fresh
          apply Triple.learn (P := ∀ t ∈ fresh.snapshots, Ledger t.ranks) fun _ start => start.2
          intro listed
          apply Triple.bind fun _ => Tidy
          · exact Triple.weaken Tidy (RemoteSync.pull_tidies order) (fun _ start => start.1)
              (fun _ _ tidy => tidy)
              fun _ _ tidy => tidy
          · intro _
            apply Triple.modify_bind Tidy fun s tidy => tidy.relist listed
            exact fun _ => Triple.pure fun _ tidy => tidy

end Coordinator

end

namespace Threads
variable [SerdeJson] [Zstd] [Xxh3] [LawfulSerdeJson] {s t : Threads} {cfg : Config}

theorem InOrder.saverStep (order : s.InOrder) (taken : s.saverStep cfg = some t) : t.InOrder := by
  obtain ⟨tidy, saver, merger⟩ := order
  unfold Threads.saverStep at taken
  split at taken
  · contradiction
  · rename_i id base tensors context lists at_
    rw [at_] at saver
    have left := Coordinator.saveRankTensors_tidies cfg id base context saver s.world tidy
    split at taken
    · rename_i entry w ran
      rw [ran] at left
      obtain rfl := Option.some.inj taken
      refine ⟨left.1, ?_, merger⟩
      split
      · exact left.2
      · trivial
    · rename_i e w ran
      rw [ran] at left
      obtain rfl := Option.some.inj taken
      exact ⟨left, trivial, merger⟩
  · rename_i id base context entry at_
    rw [at_] at saver
    have left := Coordinator.listSaved_tidies cfg id base context saver s.world tidy
    split at taken
    · rename_i evicted w ran
      rw [ran] at left
      obtain rfl := Option.some.inj taken
      exact ⟨left, trivial, merger⟩
    · rename_i e w ran
      rw [ran] at left
      obtain rfl := Option.some.inj taken
      exact ⟨left, trivial, merger⟩
  · obtain rfl := Option.some.inj taken
    exact ⟨Coordinator.listUnfinalized_tidies.final tidy, trivial, merger⟩
  · rename_i id shards at_
    rw [at_] at saver
    have left := Coordinator.listFinalized_tidies cfg id saver s.world tidy
    split at taken
    · rename_i evicted w ran
      rw [ran] at left
      obtain rfl := Option.some.inj taken
      exact ⟨left, trivial, merger⟩
    · rename_i e w ran
      rw [ran] at left
      obtain rfl := Option.some.inj taken
      exact ⟨left, trivial, merger⟩
  · obtain rfl := Option.some.inj taken
    exact ⟨tidy.flight _, trivial, merger⟩
  · rename_i r at_
    have left := Removal.next_tidy (r := r) tidy
    cases ran : r.next s.world with
    | mk w r' =>
      rw [ran] at left
      simp only [ran] at taken
      obtain rfl := Option.some.inj taken
      refine ⟨left, ?_, merger⟩
      cases r' <;> trivial

theorem InOrder.mergerStep (order : s.InOrder) (taken : s.mergerStep = some t) : t.InOrder := by
  obtain ⟨tidy, saver, merger⟩ := order
  unfold Threads.mergerStep at taken
  split at taken
  · contradiction
  · rename_i base deltas last context worldSize rank todo ranks at_
    rw [at_] at merger
    obtain ⟨ofBase, ofLast, sheets⟩ := merger
    have left := Merger.mergeRank_tidies context worldSize rank ofBase ofLast s.world tidy
    split at taken
    · rename_i entry w ran
      rw [ran] at left
      obtain rfl := Option.some.inj taken
      refine ⟨left.1, saver, ofBase, ofLast, fun e there => ?_⟩
      rcases List.mem_append.mp there with before | new
      · exact sheets e before
      · exact left.2 e (Option.mem_toList.mp new)
    · rename_i e w ran
      rw [ran] at left
      obtain rfl := Option.some.inj taken
      exact ⟨left.flight _, saver, trivial⟩
  · rename_i base deltas last context worldSize ranks at_
    rw [at_] at merger
    obtain ⟨ofBase, ofLast, sheets⟩ := merger
    have left := Merger.publish_tidies (Merger.folded (deltas.map (·.id) ++ [base.id])
      (Merger.mergedSnapshot context ranks)) (fun l lists s listed => by
        rcases List.mem_append.mp ((List.mem_insertionSort _).mp listed) with kept | new
        · exact lists s (List.mem_of_mem_filter kept)
        · obtain rfl := List.mem_singleton.mp new
          exact ledger_ofList sheets) s.world tidy
    split at taken
    · rename_i u w ran
      rw [ran] at left
      obtain rfl := Option.some.inj taken
      exact ⟨left, saver, trivial⟩
    · rename_i e w ran
      rw [ran] at left
      obtain rfl := Option.some.inj taken
      exact ⟨left.flight _, saver, trivial⟩
  · rename_i claimed r at_
    have left := Removal.next_tidy (r := r) tidy
    split at taken
    · rename_i w r' ran
      rw [ran] at left
      obtain rfl := Option.some.inj taken
      exact ⟨left, saver, trivial⟩
    · rename_i w ran
      rw [ran] at left
      obtain rfl := Option.some.inj taken
      exact ⟨left.flight _, saver, trivial⟩

omit [Zstd] [Xxh3] [LawfulSerdeJson] in
theorem InOrder.beginFullMerge {id : Uuid} {createdAt : Nat} (order : s.InOrder)
    (taken : s.beginFullMerge cfg id createdAt = some t) : t.InOrder := by
  obtain ⟨tidy, saver, merger⟩ := order
  unfold Threads.beginFullMerge at taken
  split at taken
  · rename_i base deltas planned
    split at taken
    · rename_i last claimed newest _
      obtain rfl := Option.some.inj taken
      obtain ⟨ofBase, ofDeltas⟩ := Merger.fullPlan_group planned
      exact ⟨tidy.flight claimed, saver, tidy.lists base ofBase,
        tidy.lists last (ofDeltas last (List.mem_of_getLast? newest)), by simp⟩
    · contradiction
  · contradiction

omit [Zstd] [Xxh3] in
theorem InOrder.strideMerge {config : MergerConfig} (order : s.InOrder)
    (taken : s.strideMerge config = some t) : t.InOrder := by
  obtain ⟨tidy, saver, merger⟩ := order
  unfold Threads.strideMerge at taken
  split at taken
  · rename_i superseded _
    split at taken
    · contradiction
    · rename_i claimed _
      have left := Merger.publish_tidies (Merger.without superseded)
        (fun l lists s kept => lists s (List.mem_of_mem_filter kept)) _ (tidy.flight claimed)
      split at taken
      · rename_i u w ran
        rw [ran] at left
        obtain rfl := Option.some.inj taken
        exact ⟨left, saver, trivial⟩
      · rename_i e w ran
        rw [ran] at left
        obtain rfl := Option.some.inj taken
        exact ⟨left.flight _, saver, trivial⟩
  · contradiction

theorem InOrder.step {event : ThreadEvent} {life : Life} (order : s.InOrder)
    (credible : life.Plausible (.thread event))
    (taken : s.step cfg event = some t) : t.InOrder := by
  obtain ⟨tidy, saver, merger⟩ := order
  cases event with
  | beginSave id tensors context =>
    simp only [Threads.step] at taken
    split at taken
    · contradiction
    · split at taken
      · obtain rfl := Option.some.inj taken
        exact ⟨tidy.flight _, credible, merger⟩
      · contradiction
  | beginCreate id context =>
    simp only [Threads.step] at taken
    split at taken
    · contradiction
    · split at taken
      · obtain rfl := Option.some.inj taken
        exact ⟨tidy, trivial, merger⟩
      · contradiction
  | beginRank id tensors =>
    simp only [Threads.step] at taken
    split at taken
    · obtain rfl := Option.some.inj taken
      exact ⟨tidy.flight _, credible, merger⟩
    · contradiction
  | reload =>
    simp only [Threads.step] at taken
    split at taken
    · obtain rfl := Option.some.inj taken
      exact ⟨Coordinator.reloadManifest_tidies.final tidy, saver, merger⟩
    · contradiction
  | collect id =>
    simp only [Threads.step] at taken
    split at taken
    · rename_i shards _ collected
      obtain rfl := Option.some.inj taken
      exact ⟨tidy, ledger_collected tidy collected, merger⟩
    · contradiction
  | save => exact InOrder.saverStep ⟨tidy, saver, merger⟩ taken
  | setPinned step pinned =>
    obtain rfl := Option.some.inj taken
    exact ⟨Coordinator.setPinned_tidies.final tidy, saver, merger⟩
  | otherRank own memory id tensors =>
    obtain rfl := Option.some.inj taken
    have left := (Coordinator.saveRank_tidies own id credible).final
      (s := ⟨s.world.disk, memory.manifest, memory.retainedBase, memory.inFlight⟩) tidy.disk
    exact ⟨⟨left, tidy.lists⟩, saver, merger⟩
  | beginLoad id =>
    simp only [Threads.step] at taken
    split at taken
    · contradiction
    · obtain rfl := Option.some.inj taken
      exact ⟨tidy.flight _, saver, merger⟩
  | endLoad pins =>
    simp only [Threads.step] at taken
    split at taken
    · obtain rfl := Option.some.inj taken
      exact ⟨tidy.flight _, saver, merger⟩
    · contradiction
  | beginFullMerge id createdAt =>
    simp only [Threads.step] at taken
    split at taken
    · contradiction
    · split at taken
      · exact InOrder.beginFullMerge ⟨tidy, saver, merger⟩ taken
      · contradiction
  | strideMerge =>
    simp only [Threads.step] at taken
    split at taken
    · exact InOrder.strideMerge ⟨tidy, saver, merger⟩ taken
    · contradiction
  | merge => exact InOrder.mergerStep ⟨tidy, saver, merger⟩ taken

end Threads

namespace Life
variable [SerdeJson] [Zstd] [Xxh3] [LawfulSerdeJson] {start s t : Life} {event : LifeEvent}

theorem inOrder_step (order : s.threads.InOrder) (credible : s.Plausible event)
    (taken : s.step event = some t) :
    t.threads.InOrder := by
  have left : ∀ files, s.Written files → Tidy (s.worldOf files) :=
    fun files written => ⟨⟨order.tidy.disk.bounded, order.tidy.disk.wrote, written⟩, order.tidy.lists⟩
  cases event with
  | thread event =>
    obtain ⟨u, moved, rfl⟩ := Option.map_eq_some_iff.mp taken
    exact order.step credible moved
  | restore remote =>
    obtain rfl := Option.some.inj taken
    refine ⟨(Coordinator.restoreFromRemote_tidies fun p body found => ?_).final order.tidy,
      order.saver, order.merger⟩
    exact order.tidy.disk.wrote p body (credible p body found)
  | restart cfg e files =>
    have opened := Recovery.openStore_tidies cfg e _ (left files credible)
    simp only [step] at taken
    split at taken
    · rename_i w ran
      rw [ran] at opened
      obtain rfl := Option.some.inj taken
      exact ⟨opened, trivial, trivial⟩
    · contradiction

/-- Whatever happens to a store, the entries of all it lists are in order. -/
theorem inOrder_reached (fresh : start.Fresh) (run : Reaches step Plausible start s) : s.threads.InOrder := by
  apply run.invariant (fun s => s.threads.InOrder)
  · constructor
    · constructor
      · constructor
        · exact fresh.bounded
        · simp [fresh.unused]
        · simp [fresh.empty]
      · simp [fresh.unlisted]
    · rw [fresh.saver]
      trivial
    · rw [fresh.merger]
      trivial
  · exact fun s event t order credible taken => inOrder_step order credible taken

/-- Loading some tensors of a snapshot returns what loading it returns, cut down to their
names; asked for a name the snapshot does not have, it fails. -/
theorem loadTensors_restricts (fresh : start.Fresh) (run : Reaches step Plausible start s) {snapId : Uuid}
    {snap : Snapshot} {rank : Nat} {entry : RankEntry}
      (found : s.threads.world.manifest.findSnapshot snapId = some snap)
    (present : snap.ranks[rank]? = some entry) (names : List String) :
    ((∀ n ∈ names, n ∈ entry.tensors.map (·.name)) →
      ∀ out, Coordinator.load rank s.threads.world.disk.files s.threads.world.manifest snapId = .ok out →
        (∀ n ∈ names, (out[n]?).isSome = true) ∧ ∃ part,
          Coordinator.loadTensors rank s.threads.world.disk.files s.threads.world.manifest snapId
            names = .ok part ∧
            ∀ n : String, part[n]? = if n ∈ names then out[n]? else none) ∧
    ((∃ n ∈ names, n ∉ entry.tensors.map (·.name)) → ∃ e,
      Coordinator.loadTensors rank s.threads.world.disk.files s.threads.world.manifest snapId
        names = .error e) := by
  have order := inOrder_reached fresh run
  constructor
  · intro asked out loaded
    exact Coordinator.loadTensors_part order.tidy.lists found present asked loaded
  · rintro ⟨n, asked, absent⟩
    exact Coordinator.loadTensors_absent found present asked absent

/-- The two calls as they are made, which first bring down from the bucket, whatever is in
it, what this disk lacks: both bring down the same, and agree on it. -/
theorem fetching_restricts (fresh : start.Fresh) (run : Reaches step Plausible start s) {snapId : Uuid}
    {snap : Snapshot} {rank : Nat} {entry : RankEntry}
      (found : s.threads.world.manifest.findSnapshot snapId = some snap)
    (present : snap.ranks[rank]? = some entry) (remote : Option Files) (names : List String) :
    ((∀ n ∈ names, n ∈ entry.tensors.map (·.name)) → ∀ out after,
      Coordinator.fetching rank remote snapId (fun files m => Coordinator.load rank files m snapId)
          s.threads.world = .ok out after →
        (∀ n ∈ names, (out[n]?).isSome = true) ∧ ∃ part,
          Coordinator.fetching rank remote snapId
              (fun files m => Coordinator.loadTensors rank files m snapId names) s.threads.world =
                .ok part after ∧
            ∀ n : String, part[n]? = if n ∈ names then out[n]? else none) ∧
    ((∃ n ∈ names, n ∉ entry.tensors.map (·.name)) → ∀ part after,
      Coordinator.fetching rank remote snapId
        (fun files m => Coordinator.loadTensors rank files m snapId names) s.threads.world ≠
          .ok part after) := by
  have order := inOrder_reached fresh run
  constructor
  · intro asked out after loaded
    obtain ⟨snapshots, pinned, fetched, loaded⟩ := Coordinator.fetching_eq_ok.mp loaded
    obtain ⟨held, part, picked, only⟩ :=
      Coordinator.loadTensors_part order.tidy.lists found present asked loaded
    exact ⟨held, part, Coordinator.fetching_eq_ok.mpr ⟨snapshots, pinned, fetched, picked⟩, only⟩
  · rintro ⟨n, asked, absent⟩ part after loaded
    obtain ⟨_, _, _, picked⟩ := Coordinator.fetching_eq_ok.mp loaded
    obtain ⟨e, refused⟩ := Coordinator.loadTensors_absent found present asked absent
    exact absurd (picked.symm.trans refused) (by simp)

end Life

namespace Pair

def blank : Life := ⟨capped .none, ⟨blankWorld, .idle, [], .idle, []⟩⟩

def saving (id : Uuid) (tensors : List TensorData) (step steps : Nat) : List LifeEvent :=
  .thread (.beginSave id tensors (context step)) :: List.replicate steps (.thread .save)

def events : List LifeEvent :=
  .restart (capped .none) inOrder .empty ::
    (saving 7 [weight, bias] 100 5 ++ saving 8 [weight, changed] 200 5 ++ saving 9 [weight, changed] 300 5)

def permits (_ : Life) : LifeEvent → Bool
  | .thread (.beginSave _ tensors _) => decide (tensors.map (·.name)).Nodup
  | .thread .save => true
  | .restart _ _ left => left.names.isEmpty
  | _ => false

def lived : Option Life := @run _ _ (@Life.step serde Linked.zstd Linked.xxh3) permits blank events

/-- The names a snapshot has in the store the saves lead to. -/
def named (s : Life) (id : Uuid) : Option (List String) :=
  ((s.threads.world.manifest.findSnapshot id).bind (·.ranks[0]?)).map (·.tensors.map (·.name))

def loads (s : Life) (id : Uuid) : Option TensorMap :=
  (@Coordinator.load Linked.zstd Linked.xxh3 0 s.threads.world.disk.files
    s.threads.world.manifest id).toOption

end Pair

/-- Of a delta of two tensors, the one that is only recorded as unchanged; and one it does not have. -/
theorem Life.loadTensors_restricts_pair :
    let _ := Linked.zstd
    let _ := Linked.xxh3
    let _ := Pair.serde
    ∃ s : Life, Pair.lived = some s ∧
      (∃ out part, Coordinator.load 0 s.threads.world.disk.files s.threads.world.manifest 9 = .ok out ∧
        Coordinator.loadTensors 0 s.threads.world.disk.files s.threads.world.manifest 9 ["w"] = .ok part ∧
        part["w"]? = out["w"]? ∧ (out["w"]?).isSome = true ∧ part["b"]? = none ∧ (out["b"]?).isSome = true) ∧
      ∃ e, Coordinator.loadTensors 0 s.threads.world.disk.files s.threads.world.manifest 9
        ["b", "c"] = .error e := by
  intro zstd xxh3 serde
  have := Pair.lawful
  have ran :
    Pair.lived.any (fun s => decide (Pair.named s 9 = some ["w", "b"]) && (Pair.loads s 9).isSome) =
    true := by
    decide +kernel
  obtain ⟨s, ends, ran⟩ := (Option.any_eq_true _ _).mp ran
  obtain ⟨named, loads⟩ := Bool.and_eq_true_iff.mp ran
  have named := of_decide_eq_true named
  have run : Reaches Life.step Life.Plausible Pair.blank s := by
    refine reaches_of_run .refl (fun t event permitted => ?_) ends
    cases event with
    | thread event =>
      cases event <;> simp_all [Pair.permits, Life.Plausible]
    | restore remote => simp [Pair.permits] at permitted
    | restart cfg e left =>
      intro p body found
      have there := left.mem_names.mpr (by rw [found]; rfl : (left.find? p).isSome = true)
      simp_all [Pair.permits]
  obtain ⟨entry, there, names⟩ := Option.map_eq_some_iff.mp named
  obtain ⟨snap, listed, present⟩ := Option.bind_eq_some_iff.mp there
  have fresh : Pair.blank.Fresh := ⟨rfl, rfl, fun _ _ => of_decide_eq_true, rfl, rfl, rfl⟩
  obtain ⟨out, loads⟩ := Option.isSome_iff_exists.mp loads
  have loaded : Coordinator.load 0 s.threads.world.disk.files s.threads.world.manifest 9 = .ok out :=
    Library.Outcome.toOption_eq_some.mp loads
  refine ⟨s, ends, ?_, ?_⟩
  · obtain ⟨both, _⟩ := (Life.loadTensors_restricts fresh run listed present ["w", "b"]).1
      (by simp [names]) out loaded
    obtain ⟨_, part, picked, only⟩ :=
      (Life.loadTensors_restricts fresh run listed present ["w"]).1 (by simp [names]) out loaded
    exact ⟨out, part, loaded, picked, by simp [only], both "w" (by simp), by simp [only], both "b" (by simp)⟩
  · exact (Life.loadTensors_restricts fresh run listed present ["b", "c"]).2 ⟨"c", by simp, by simp [names]⟩

end Moonclip
