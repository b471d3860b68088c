import Moonclip.Library.Steps
import Moonclip.Merger
import Moonclip.Processes
import Moonclip.Ranks
import Mathlib.Logic.Relation

/-! The threads of one coordinator: one that saves, the background merger, any number of
readers. What one does while it holds the manifest lock is one step, and so is each file
it writes or removes outside of it. -/
namespace Moonclip
open Library.Effect Library.Steps

namespace Coordinator

section
variable [SerdeJson]

def push (snapshot : Snapshot) : Act Unit := modify fun w =>
  { w with manifest := { w.manifest with snapshots := w.manifest.snapshots ++ [snapshot] } }

/-- A snapshot as `create_snapshot` lists it. -/
def unfinalized (cfg : Config) (snapId : Uuid) (base : Option Snapshot)
    (context : SnapshotContext) : Snapshot where
  id := snapId
  step := context.step
  createdAt := context.createdAt
  ranks := ∅
  baseSnapshotId := base.map (·.id)
  metadata := context.metadata
  compression := cfg.compression
  finalized := false
  pinned := false

/-- The second lock of `create_snapshot`. -/
def listUnfinalized (cfg : Config) (snapId : Uuid) (base : Option Snapshot) (context : SnapshotContext) :
    Act Unit := do
  push (unfinalized cfg snapId base context)
  ManifestIo.persist

/-- The second lock of a save. -/
def listSaved (cfg : Config) (snapId : Uuid) (base : Option Snapshot) (context : SnapshotContext)
    (rankEntry : RankEntry) : Act (List Snapshot) := do
  push (snapshotOf cfg snapId base context rankEntry)
  applyRetention

/-- The last lock of `finalize_snapshot`. -/
def listFinalized (cfg : Config) (snapId : Uuid) (shards : RankMap) : Act (List Snapshot) := do
  let m ← returning (assemble cfg snapId shards (← get).manifest)
  modify fun w => { w with manifest := m }
  applyRetention

variable {cfg : Config} {snapId : Uuid} {base : Option Snapshot} {context : SnapshotContext}
  {tensors : List TensorData}

/-- With nobody in between, the two locks are the call. -/
theorem createSnapshot_eq : createSnapshot cfg snapId context = (do
    let w ← get
    listUnfinalized cfg snapId (chooseBase w.manifest w.inFlight context.step) context) := rfl

theorem recordSave_eq [Zstd] [Xxh3] : recordSave cfg snapId base tensors context = (do
    let entry ← saveRankTensors cfg snapId base tensors context
    listSaved cfg snapId base context entry) := rfl

end

/-- The files an unlink goes through. -/
def unlinkFiles (doomed : List Snapshot) : List Path :=
  doomed.flatMap fun s => s.filesOf none ++ [ranksPath s.id]

end Coordinator

/-- Where an unlink is: waiting for readers, or at a file. -/
inductive Removal where
  | waiting (doomed : List Snapshot)
  | deleting (doomed : List Snapshot) (files : List Path)

/-- Where the thread that saves is. -/
inductive Saver where
  | idle
  | writing (snapId : Uuid) (base : Option Snapshot) (tensors : List TensorData) (context : SnapshotContext)
      (lists : Bool)
  | listing (snapId : Uuid) (base : Option Snapshot) (context : SnapshotContext) (rankEntry : RankEntry)
  | creating (snapId : Uuid) (base : Option Snapshot) (context : SnapshotContext)
  | finalizing (snapId : Uuid) (shards : RankMap)
  | releasing (pins : List Uuid) (evicted : List Snapshot)
  | removing (r : Removal)

/-- Where the merger is. `claimed` is what it holds its claim on. -/
inductive MergeStage where
  | idle
  | folding (base : Snapshot) (deltas : List Snapshot) (last : Snapshot) (context : Merger.MergedContext)
      (worldSize : Nat) (todo : List Nat) (ranks : List (Nat × RankEntry))
  | removing (claimed : List Uuid) (r : Removal)

structure Threads where
  world : World
  saver : Saver
  readers : List (List Uuid)
  merger : MergeStage
  /-- Every identifier drawn so far. -/
  drawn : List Uuid

/-- What happens next. An identifier is a new one; a rank in a process of its own reads
what it likes and puts its pack down. -/
inductive ThreadEvent where
  | beginSave (snapId : Uuid) (tensors : List TensorData) (context : SnapshotContext)
  | beginCreate (snapId : Uuid) (context : SnapshotContext)
  | beginRank (snapId : Uuid) (tensors : List TensorData)
  | reload
  | collect (snapId : Uuid)
  | save
  | setPinned (step : Nat) (pinned : Bool)
  | otherRank (cfg : Config) (memory : Memory) (snapId : Uuid) (tensors : List TensorData)
  | beginLoad (snapId : Uuid)
  | endLoad (pins : List Uuid)
  | beginFullMerge (mergedId : Uuid) (createdAt : Nat)
  | strideMerge
  | merge

namespace Removal

def doomed : Removal → List Snapshot
  | .waiting doomed | .deleting doomed _ => doomed

/-- One step of an unlink; whoever waits too long leaves the files. -/
def next (w : World) : Removal → World × Option Removal
  | .waiting doomed =>
    if w.inFlight.anyPinned (doomed.map (·.id)) then (w, none)
    else (w, some (.deleting doomed (Coordinator.unlinkFiles doomed)))
  | .deleting _ [] => (w, none)
  | .deleting doomed (p :: rest) => (finalState (Storage.delete p) w, some (.deleting doomed rest))

end Removal

namespace Saver

/-- The snapshot a pending save is computed against. -/
def base : Saver → Option Snapshot
  | .writing _ base _ _ _ | .listing _ base _ _ | .creating _ base _ => base
  | _ => none

def pins : Saver → List Uuid
  | .writing _ base _ _ _ | .listing _ base _ _ => (base.map (·.id)).toList
  | .releasing pins _ => pins
  | _ => []

/-- The identifier that is about to be listed. -/
def coming : Saver → Option Uuid
  | .writing id _ _ _ true | .listing id _ _ _ | .creating id _ _ => some id
  | _ => none

def doomed : Saver → List Snapshot
  | .releasing _ evicted => evicted
  | .removing r => r.doomed
  | _ => []

end Saver

namespace MergeStage

def claimed : MergeStage → List Uuid
  | .idle => []
  | .folding base deltas _ _ _ _ _ => base.id :: deltas.map (·.id)
  | .removing claimed _ => claimed

def coming : MergeStage → Option Uuid
  | .folding _ _ _ context _ _ _ => some context.id
  | _ => none

def doomed : MergeStage → List Snapshot
  | .removing _ r => r.doomed
  | _ => []

end MergeStage

namespace Threads
variable [SerdeJson] [Zstd] [Xxh3]

def withFlight (s : Threads) (f : InFlight → InFlight) : Threads :=
  { s with world := { s.world with inFlight := f s.world.inFlight } }

/-- The saver's next step. A save that fails drops its pin and unlinks nothing. -/
def saverStep (cfg : Config) (s : Threads) : Option Threads :=
  match s.saver with
  | .idle => none
  | .writing id base tensors context lists =>
    match Coordinator.saveRankTensors cfg id base tensors context s.world with
    | .ok entry w => some { s with
        world := w
        saver := if lists then .listing id base context entry else .releasing s.saver.pins [] }
    | .error _ w => some { s with world := w, saver := .releasing s.saver.pins [] }
  | .listing id base context entry =>
    match Coordinator.listSaved cfg id base context entry s.world with
    | .ok evicted w => some { s with world := w, saver := .releasing s.saver.pins evicted }
    | .error _ w => some { s with world := w, saver := .releasing s.saver.pins [] }
  | .creating id base context => some { s with
      world := finalState (Coordinator.listUnfinalized cfg id base context) s.world
      saver := .idle }
  | .finalizing id shards =>
    match Coordinator.listFinalized cfg id shards s.world with
    | .ok evicted w => some { s with world := w, saver := .removing (.waiting evicted) }
    | .error _ w => some { s with world := w, saver := .idle }
  | .releasing pins evicted =>
    some { s.withFlight (·.unpin pins) with saver := .removing (.waiting evicted) }
  | .removing r =>
    let (w, r) := r.next s.world
    some { s with world := w, saver := r.elim .idle .removing }

/-- The merger's next step: a pack, the new list, or a file. -/
def mergerStep (s : Threads) : Option Threads :=
  match s.merger with
  | .idle => none
  | .folding base deltas last context worldSize (rank :: todo) ranks =>
    match Merger.mergeRank base last context worldSize rank s.world with
    | .ok entry w => some { s with
        world := w
        merger := .folding base deltas last context worldSize todo (ranks ++ entry.toList) }
    | .error _ w =>
      some { { s with world := w }.withFlight (·.unclaim s.merger.claimed) with merger := .idle }
  | .folding base deltas _ context _ [] ranks =>
    match Merger.publish (Merger.folded (deltas.map (·.id) ++ [base.id])
        (Merger.mergedSnapshot context ranks)) s.world with
    | .ok _ w => some { s with
        world := w
        merger := .removing s.merger.claimed (.waiting (deltas ++ [base])) }
    | .error _ w =>
      some { { s with world := w }.withFlight (·.unclaim s.merger.claimed) with merger := .idle }
  | .removing claimed r =>
    match r.next s.world with
    | (w, some r) => some { s with world := w, merger := .removing claimed r }
    | (w, none) => some { { s with world := w }.withFlight (·.unclaim claimed) with merger := .idle }

/-- Plan a full merge and claim what it folds; refused, nothing happens. -/
def beginFullMerge (cfg : Config) (mergedId : Uuid) (createdAt : Nat) (s : Threads) : Option Threads :=
  match Merger.fullPlan s.world.manifest with
  | .ok (.fold base deltas) =>
    match deltas.getLast?, s.world.inFlight.claim (base.id :: deltas.map (·.id)) with
    | some last, some claimed =>
      let ranks := Merger.allRanks base last
      some { s with
        world := { s.world with inFlight := claimed }
        drawn := mergedId :: s.drawn
        merger := .folding base deltas last
          (Merger.mergedContext mergedId createdAt cfg.compression last deltas.length)
          ranks.length ranks [] }
    | _, _ => none
  | _ => none

/-- A stride merge holds the lock from its plan until the new list is on disk. -/
def strideMerge (config : MergerConfig) (s : Threads) : Option Threads :=
  match Merger.stridePlan config s.world.manifest with
  | .drop superseded =>
    match s.world.inFlight.claim superseded with
    | none => none
    | some claimed =>
      match Merger.publish (Merger.without superseded) { s.world with inFlight := claimed } with
      | .ok _ w => some { s with
          world := w
          merger := .removing superseded
            (.waiting (s.world.manifest.snapshots.filter fun s => superseded.contains s.id)) }
      | .error _ w => some { { s with world := w }.withFlight (·.unclaim superseded) with merger := .idle }
  | _ => none

def step (cfg : Config) (s : Threads) : ThreadEvent → Option Threads
  | .beginSave id tensors context =>
    if id ∈ s.drawn then none
    else match s.saver with
    | .idle =>
      let base := Coordinator.chooseBase s.world.manifest s.world.inFlight context.step
      some { s.withFlight (·.pin (base.map (·.id)).toList) with
        saver := .writing id base tensors context true
        drawn := id :: s.drawn }
    | _ => none
  | .beginCreate id context =>
    if id ∈ s.drawn then none
    else match s.saver with
    | .idle => some { s with
        saver := .creating id (Coordinator.chooseBase s.world.manifest s.world.inFlight context.step) context
        drawn := id :: s.drawn }
    | _ => none
  | .beginRank id tensors =>
    match s.saver, s.world.manifest.findSnapshot id with
    | .idle, some snap =>
      let base := snap.baseSnapshotId.bind s.world.manifest.findSnapshot
      some { s.withFlight (·.pin (base.map (·.id)).toList) with
        saver := .writing id base tensors ⟨snap.step, snap.createdAt, snap.metadata⟩ false }
    | _, _ => none
  | .reload =>
    match s.saver with
    | .idle => some { s with world := finalState Coordinator.reloadManifest s.world }
    | _ => none
  | .collect id =>
    match s.saver, Coordinator.collectRankShards s.world.disk.files id with
    | .idle, .ok shards => some { s with saver := .finalizing id shards }
    | _, _ => none
  | .save => s.saverStep cfg
  | .setPinned step pinned => some { s with world := finalState (Coordinator.setPinned step pinned) s.world }
  | .otherRank own memory id tensors =>
    let w : World := ⟨s.world.disk, memory.manifest, memory.retainedBase, memory.inFlight⟩
    some { s with world := { s.world with
      disk := (finalState (Coordinator.saveRank own id tensors) w).disk } }
  | .beginLoad id =>
    match s.world.manifest.findSnapshot id with
    | none => none
    | some snap =>
      let pins := snap.id :: snap.baseSnapshotId.toList
      some { s.withFlight (·.pin pins) with readers := pins :: s.readers }
  | .endLoad pins =>
    if pins ∈ s.readers then some { s.withFlight (·.unpin pins) with readers := s.readers.erase pins }
    else none
  | .beginFullMerge id createdAt =>
    if id ∈ s.drawn then none
    else match s.merger with
    | .idle => s.beginFullMerge cfg id createdAt
    | _ => none
  | .strideMerge =>
    match s.merger, cfg.merger with
    | .idle, some config => s.strideMerge config
    | _, _ => none
  | .merge => s.mergerStep

/-- The merger goes on, and nobody else does anything. -/
abbrev Alone : Threads → Threads → Prop := Relation.ReflTransGen fun s t => s.mergerStep = some t

/-- The merger has left this behind it and dropped its claim. -/
def released (s : Threads) (claimed : List Uuid) (w : World) : Threads :=
  { { s with world := w }.withFlight (·.unclaim claimed) with merger := .idle }

variable {s t : Threads} {claimed : List Uuid} {doomed : List Snapshot} {files : List Path}
  {base last : Snapshot}
  {deltas : List Snapshot} {context : Merger.MergedContext} {worldSize : Nat} {todo : List Nat}
  {ranks : List (Nat × RankEntry)}

omit [SerdeJson] [Zstd] [Xxh3] in
theorem finalState_delete {p : Path} {rest : List Path} {w : World} :
    finalState ((p :: rest).forM Storage.delete) w =
      finalState (rest.forM Storage.delete) (finalState (Storage.delete p) w) := rfl

theorem deleting_alone : Alone { s with merger := .removing claimed (.deleting doomed files) }
    (s.released claimed (finalState (files.forM Storage.delete) s.world)) := by
  induction files generalizing s with
  | nil => exact .single rfl
  | cons p rest ih =>
    rw [finalState_delete]
    exact .head rfl (@ih { s with world := finalState (Storage.delete p) s.world })

theorem removing_alone : Alone { s with merger := .removing claimed (.waiting doomed) }
    (s.released claimed (finalState (Coordinator.unlinkSnapshots doomed) s.world)) := by
  by_cases read : s.world.inFlight.anyPinned (doomed.map (·.id)) = true
  · have waits : finalState (Coordinator.unlinkSnapshots doomed) s.world = s.world := by
      simp only [Coordinator.unlinkSnapshots, finalState, get_bind_apply, if_pos read]
      rfl
    rw [waits]
    exact .single (by simp only [mergerStep, Removal.next, if_pos read]; rfl)
  · have removes : finalState (Coordinator.unlinkSnapshots doomed) s.world =
        finalState ((Coordinator.unlinkFiles doomed).forM Storage.delete) s.world := by
      simp only [Coordinator.unlinkSnapshots, finalState, get_bind_apply, if_neg read]
      rfl
    rw [removes]
    exact .head (by simp only [mergerStep, Removal.next, if_neg read]; rfl) deleting_alone

/-- What is left of a fold that has some of its packs. -/
def foldOn (base : Snapshot) (deltas : List Snapshot) (last : Snapshot) (context : Merger.MergedContext)
    (worldSize : Nat) (todo : List Nat) (ranks : List (Nat × RankEntry)) : Act Unit := do
  let more ← Merger.mergeRanks base last context worldSize todo
  Merger.publish
    (Merger.folded (deltas.map (·.id) ++ [base.id]) (Merger.mergedSnapshot context (ranks ++ more)))
  Coordinator.unlinkSnapshots (deltas ++ [base])

theorem foldOn_cons {rank : Nat} {w : World} :
    foldOn base deltas last context worldSize (rank :: todo) ranks w =
    match Merger.mergeRank base last context worldSize rank w with
    | .ok entry w => foldOn base deltas last context worldSize todo (ranks ++ entry.toList) w
    | .error e w => .error e w := by
  simp only [foldOn, Merger.mergeRanks, bind, EStateM.bind]
  cases Merger.mergeRank base last context worldSize rank w with
  | error e w => rfl
  | ok entry w =>
    dsimp only
    cases Merger.mergeRanks base last context worldSize todo w with
    | error e w => rfl
    | ok more w => simp [pure, EStateM.pure]

theorem folding_alone : Alone { s with merger := .folding base deltas last context worldSize todo ranks }
    (s.released (base.id :: deltas.map (·.id))
      (finalState (foldOn base deltas last context worldSize todo ranks) s.world)) := by
  induction todo generalizing s ranks with
  | nil =>
    simp only [finalState, foldOn, Merger.mergeRanks, bind, EStateM.bind, pure, EStateM.pure, List.append_nil]
    cases published : Merger.publish (Merger.folded (deltas.map (·.id) ++ [base.id])
        (Merger.mergedSnapshot context ranks)) s.world with
    | error e w => exact .single (by simp only [mergerStep, published]; rfl)
    | ok u w =>
      exact .head (by simp only [mergerStep, published]; rfl)
        (@removing_alone _ _ _ { s with world := w } _ _)
  | cons rank todo ih =>
    simp only [finalState, foldOn_cons]
    cases merged : Merger.mergeRank base last context worldSize rank s.world with
    | error e w => exact .single (by simp only [mergerStep, merged, withFlight, released, MergeStage.claimed])
    | ok entry w => exact .head (by simp only [mergerStep, merged]) (@ih { s with world := w } _)

theorem finalState_foldGroup {w : World} : finalState (Merger.foldGroup base deltas last context) w =
    finalState (foldOn base deltas last context (Merger.allRanks base last).length
      (Merger.allRanks base last) []) w := by
  simp only [finalState, Merger.foldGroup, foldOn, bind, EStateM.bind, pure, EStateM.pure, List.nil_append]
  cases Merger.mergeRanks base last context (Merger.allRanks base last).length
    (Merger.allRanks base last) w with
  | error e w => rfl
  | ok entries w =>
    dsimp only
    cases Merger.publish
      (Merger.folded (deltas.map (·.id) ++ [base.id]) (Merger.mergedSnapshot context entries)) w with
    | error e w => rfl
    | ok u w =>
      dsimp only
      cases Coordinator.unlinkSnapshots (deltas ++ [base]) w <;> rfl

omit [SerdeJson] [Zstd] [Xxh3] in
/-- A call that gets its claim runs with it and drops it. -/
theorem finalState_withClaim {α : Type} {ids : List Uuid} {refused act : Act α} {w : World} {held : InFlight}
    (claim : w.inFlight.claim ids = some held) : finalState (Merger.withClaim ids refused act) w =
      { finalState act { w with inFlight := held } with
        inFlight := (finalState act { w with inFlight := held }).inFlight.unclaim ids } := by
  simp only [finalState, Merger.withClaim, get_bind_apply, claim, bracket]
  cases act { w with inFlight := held } <;> rfl

/-- With nobody in between, the steps of a full merge are the call. -/
theorem fullMerge_alone {cfg : Config} {mergedId : Uuid} {createdAt : Nat}
    (begun : s.beginFullMerge cfg mergedId createdAt = some t) : ∃ u, Alone t u ∧ u.merger = .idle ∧
      u.world = finalState (Merger.doFullMerge cfg.compression mergedId createdAt) s.world := by
  unfold beginFullMerge at begun
  split at begun
  · rename_i base deltas planned
    split at begun
    · rename_i last claimed newest claim
      obtain rfl := Option.some.inj begun
      refine ⟨_, @folding_alone _ _ _
        { s with world := { s.world with inFlight := claimed }, drawn := mergedId :: s.drawn }
        _ _ _ _ _ _ _, rfl, ?_⟩
      have call : finalState (Merger.doFullMerge cfg.compression mergedId createdAt) s.world =
          finalState (Merger.withClaim (base.id :: deltas.map (·.id)) (pure .busy)
            (Merger.foldGroup base deltas last
              (Merger.mergedContext mergedId createdAt cfg.compression last deltas.length))) s.world := by
        simp only [Merger.doFullMerge, finalState, get_bind_apply, planned, returning, pure_bind, newest]
      rw [call, finalState_withClaim claim, finalState_foldGroup]
      rfl
    · contradiction
  · contradiction

/-- And those of a stride merge that has something to drop. -/
theorem strideMerge_alone {config : MergerConfig} {algo : CompressionAlgo} {mergedId : Uuid} {createdAt : Nat}
    (begun : s.strideMerge config = some t) : ∃ u, Alone t u ∧ u.merger = .idle ∧
      u.world = finalState (Merger.doStrideMerge config algo mergedId createdAt) s.world := by
  unfold strideMerge at begun
  split at begun
  · rename_i superseded planned
    split at begun
    · contradiction
    · rename_i claimed claim
      let gone := s.world.manifest.snapshots.filter fun s => superseded.contains s.id
      have call : finalState (Merger.doStrideMerge config algo mergedId createdAt) s.world =
          finalState (Merger.withClaim superseded (pure ()) do
            Merger.publish (Merger.without superseded)
            Coordinator.unlinkSnapshots gone) s.world := by
        simp only [Merger.doStrideMerge, finalState, get_bind_apply, planned]
        rfl
      rw [call, finalState_withClaim claim]
      split at begun
      · rename_i u w published
        obtain rfl := Option.some.inj begun
        refine ⟨_, @removing_alone _ _ _ { s with world := w } _ _, rfl, ?_⟩
        simp only [finalState, bind, EStateM.bind, published]
        rfl
      · rename_i e w published
        obtain rfl := Option.some.inj begun
        refine ⟨_, .refl, rfl, ?_⟩
        simp only [finalState, bind, EStateM.bind, published]
        rfl
  · contradiction

end Threads
end Moonclip
