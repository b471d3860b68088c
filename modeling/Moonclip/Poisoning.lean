import Moonclip.Assembly
import Moonclip.Merger

/-! A panic under the manifest lock, and who notices. The coordinator looks whether
the lock is poisoned before it takes it and raises a flag; the merger just takes it;
only some calls read the manifest again before they change it. -/
namespace Moonclip
open Library.Effect Library.Files Library.Steps

/-- What a thread does while it holds the lock. -/
inductive Section where
  | read
  | reload (healing : Bool)
  | publish (act : Act Unit)

/-- What a thread does next: load or store one of the flags, or hold the lock. -/
inductive Instr where
  | look
  | raise
  | check
  | trustFlag
  | trustPoison
  | hold (s : Section)

/-- The calls that use the manifest, with what they found out before their last lock. -/
inductive Op where
  | save (snapshot : Snapshot)
  | create (snapshot : Snapshot)
  | saveRank
  | finalize (cfg : Config) (snapId : Uuid) (shards : RankMap)
  | setPinned (step : Nat) (pinned : Bool)
  | load (locks : Nat)
  | fullMerge (deep : Bool) (group : List Uuid) (merged : Snapshot)
  | strideMerge (superseded : List Uuid)

namespace Instr

/-- `Core::lock_manifest` around `s`; the merger holds the lock with no look before. -/
def lockManifest (s : Section) : List Instr := [.look, .raise, .hold s]

def reloadManifest (healing : Bool) : List Instr :=
  [.trustFlag, .trustPoison] ++ lockManifest (.reload healing)

/-- Raise the flag if the lock is poisoned, and re-read if it is up. -/
def healManifest : List Instr := [.look, .raise, .check] ++ reloadManifest true

end Instr

section
variable [SerdeJson]

def push (snapshot : Snapshot) : Act Unit := modify fun w =>
  { w with manifest := { w.manifest with snapshots := w.manifest.snapshots ++ [snapshot] } }

open Instr in
def Op.program : Op → List Instr
  | .save snapshot => healManifest ++ lockManifest .read ++
      lockManifest (.publish do push snapshot; discard Coordinator.applyRetention)
  | .create snapshot => healManifest ++ lockManifest .read ++
      lockManifest (.publish do push snapshot; ManifestIo.persist)
  | .saveRank => reloadManifest false ++ lockManifest .read
  | .finalize cfg snapId shards => reloadManifest false ++
      lockManifest (.publish (Coordinator.publishAssembled cfg snapId shards))
  | .setPinned step pinned => lockManifest (.publish (discard (Coordinator.setPinned step pinned)))
  | .load locks => (List.replicate locks (lockManifest .read)).flatten
  | .fullMerge deep group merged => (if deep then [.hold .read] else []) ++
      [.hold .read, .hold (.publish (Merger.publish (Merger.folded group merged)))]
  | .strideMerge superseded => [.hold (.publish (Merger.publish (Merger.without superseded)))]

/-- Threads of one process. `tainted` says that what a panic left in memory has not been
read again since, `leaked` that such a copy was written to storage. -/
structure Locking (ι : Type) where
  world : World
  poisoned : Bool
  stale : Bool
  program : ι → List Instr
  saw : ι → Bool
  trusted : ι → Bool
  tainted : Bool
  leaked : Bool

/-- A thread may give a call up at any point; one that panics holds the lock and leaves
any manifest behind. -/
inductive LockEvent (ι : Type) where
  | start (i : ι) (op : Op)
  | next (i : ι)
  | giveUp (i : ι)
  | panic (i : ι) (manifest : Manifest)

/-- Whether the manifest was put to storage in between. -/
def wroteManifest (before after : World) : Bool :=
  (after.disk.journal.drop before.disk.journal.length).any fun
    | .put .manifestJson _ => true
    | _ => false

namespace Locking
variable {ι : Type} [DecidableEq ι]

/-- The lock taken, `work` done and the lock released; taking it clears the poison. -/
def held (s : Locking ι) (i : ι) (rest : List Instr) : Section → Locking ι
  | .read => { s with poisoned := false, program := Function.update s.program i rest }
  | .reload healing =>
    match Coordinator.reloaded (s.trusted i) s.world.disk.files s.world.manifest with
    | .error _ => { s with
        poisoned := false
        stale := s.stale || healing
        program := Function.update s.program i [] }
    | .ok m => { s with
        poisoned := false
        stale := false
        world := { s.world with manifest := m }
        program := Function.update s.program i rest
        tainted := s.tainted && (s.trusted i || (s.world.disk.files.find? .manifestJson).isNone) }
  | .publish act => { s with
      poisoned := false
      world := finalState act s.world
      program := Function.update s.program i rest
      leaked := s.leaked || s.tainted && wroteManifest s.world (finalState act s.world) }

def step (s : Locking ι) : LockEvent ι → Option (Locking ι)
  | .start i op =>
    match s.program i with
    | [] => some { s with program := Function.update s.program i op.program }
    | _ => none
  | .next i =>
    match s.program i with
    | [] => none
    | .look :: rest => some { s with
        saw := Function.update s.saw i s.poisoned
        program := Function.update s.program i rest }
    | .raise :: rest => some { s with
        stale := s.stale || s.saw i
        program := Function.update s.program i rest }
    | .check :: rest => some { s with
        program := Function.update s.program i
          (if s.stale then rest else rest.drop (Instr.reloadManifest true).length) }
    | .trustFlag :: rest => some { s with
        trusted := Function.update s.trusted i (!s.stale)
        program := Function.update s.program i rest }
    | .trustPoison :: rest => some { s with
        trusted := Function.update s.trusted i (s.trusted i && !s.poisoned)
        program := Function.update s.program i rest }
    | .hold work :: rest => some (s.held i rest work)
  | .giveUp i => some { s with program := Function.update s.program i [] }
  | .panic i manifest =>
    match s.program i with
    | .hold _ :: _ => some { s with
        world := { s.world with manifest := manifest }
        poisoned := true
        tainted := true
        program := Function.update s.program i [] }
    | _ => none

/-- Whoever finds the lock poisoned has the flag up by then; nobody publishes, or lends
the copy in memory, with either flag up; and there is a manifest to read again. -/
def heeds (s : Locking ι) : LockEvent ι → Bool
  | .next i =>
    match s.program i with
    | .hold .read :: _ => !s.poisoned || s.stale
    | .hold (.reload _) :: _ => (!s.poisoned || s.stale) &&
        (!s.trusted i || !s.poisoned && !s.stale) && (s.world.disk.files.find? .manifestJson).isSome
    | .hold (.publish _) :: _ => !s.poisoned && !s.stale
    | _ => true
  | _ => true

/-- The copy a panic left is under a flag, and has not been written. -/
structure Guarded (s : Locking ι) : Prop where
  flagged : s.tainted = true → s.poisoned = true ∨ s.stale = true
  kept : s.leaked = false

variable {s t : Locking ι} {event : LockEvent ι}

theorem Guarded.held {i : ι} {rest : List Instr} {work : Section} (guarded : s.Guarded)
    (next : s.program i = .hold work :: rest) (heeded : s.heeds (.next i) = true) :
    (s.held i rest work).Guarded := by
  cases work with
  | read =>
    simp only [heeds, next, Bool.or_eq_true, Bool.not_eq_true'] at heeded
    refine ⟨fun tainted => .inr ?_, guarded.kept⟩
    rcases guarded.flagged tainted with poisoned | stale
    · exact heeded.resolve_left (by simp [poisoned])
    · exact stale
  | reload healing =>
    simp only [heeds, next, Bool.and_eq_true, Bool.or_eq_true, Bool.not_eq_true'] at heeded
    obtain ⟨⟨found, lent⟩, there⟩ := heeded
    have up : s.tainted = true → s.stale = true := by
      intro tainted
      rcases guarded.flagged tainted with poisoned | stale
      · exact found.resolve_left (by simp [poisoned])
      · exact stale
    simp only [Locking.held]
    split
    · exact ⟨fun tainted => .inr (by simp [up tainted]), guarded.kept⟩
    · refine ⟨fun tainted => ?_, guarded.kept⟩
      -- what is read again without the copy in memory is clean
      have absent : (s.world.disk.files.find? .manifestJson).isNone = false := by
        simpa [Option.isSome_iff_ne_none] using there
      simp only [absent, Bool.or_false, Bool.and_eq_true] at tainted
      obtain ⟨tainted, trusted⟩ := tainted
      have stale := up tainted
      rcases lent with distrusted | ⟨_, down⟩
      · simp [trusted] at distrusted
      · simp [stale] at down
  | publish act =>
    simp only [heeds, next, Bool.and_eq_true, Bool.not_eq_true'] at heeded
    obtain ⟨sound, down⟩ := heeded
    have clean : s.tainted = false := by
      by_contra tainted
      rcases guarded.flagged (by simpa using tainted) with poisoned | stale
      · simp [sound] at poisoned
      · simp [down] at stale
    exact ⟨fun tainted => absurd tainted (by simp [Locking.held, clean]),
      by simp [Locking.held, guarded.kept, clean]⟩

theorem Guarded.step (guarded : s.Guarded) (heeded : s.heeds event = true) (taken : s.step event = some t) :
    t.Guarded := by
  cases event with
  | start i op =>
    simp only [Locking.step] at taken
    split at taken
    · obtain rfl := Option.some.inj taken
      exact ⟨guarded.flagged, guarded.kept⟩
    · contradiction
  | next i =>
    simp only [Locking.step] at taken
    split at taken
    · contradiction
    · obtain rfl := Option.some.inj taken
      exact ⟨guarded.flagged, guarded.kept⟩
    · obtain rfl := Option.some.inj taken
      exact ⟨fun tainted => (guarded.flagged tainted).imp_right fun stale => by simp [stale], guarded.kept⟩
    · obtain rfl := Option.some.inj taken
      exact ⟨guarded.flagged, guarded.kept⟩
    · obtain rfl := Option.some.inj taken
      exact ⟨guarded.flagged, guarded.kept⟩
    · obtain rfl := Option.some.inj taken
      exact ⟨guarded.flagged, guarded.kept⟩
    · rename_i work rest next
      obtain rfl := Option.some.inj taken
      exact guarded.held next heeded
  | giveUp i =>
    obtain rfl := Option.some.inj taken
    exact ⟨guarded.flagged, guarded.kept⟩
  | panic i manifest =>
    simp only [Locking.step] at taken
    split at taken
    · obtain rfl := Option.some.inj taken
      exact ⟨fun _ => .inl rfl, guarded.kept⟩
    · contradiction

/-- Where every lock is taken with the flags heeded, no copy that a panic left is
written. -/
theorem never_leaked {start : Locking ι} (clean : start.tainted = false) (unwritten : start.leaked = false)
    (run : Reaches step (fun s event => s.heeds event = true) start s) : s.leaked = false := by
  have guarded : s.Guarded := by
    refine run.invariant _ ⟨fun tainted => ?_, unwritten⟩ fun t event u guarded heeded taken =>
      guarded.step heeded taken
    rw [clean] at tainted
    contradiction
  exact guarded.kept

end Locking
end

namespace Panicked
open Coordinator (emptyFull)

def listing (snapshots : List Snapshot) (written : Finset Uuid) : Manifest :=
  { Manifest.default with snapshots := snapshots, ranksWritten := written }

abbrev serde : SerdeJson :=
  JsonText.serde (fun _ => []) [ManifestIo.indexOf (listing [emptyFull 1 100 false] {1}),
      ManifestIo.indexOf (listing [emptyFull 1 100 true, emptyFull 2 200 false] {1, 2}),
      ManifestIo.indexOf (listing [emptyFull 1 100 false, emptyFull 3 300 false] {1, 3})]
    [⟨1, (emptyFull 1 100 false).ranks⟩, ⟨2, (emptyFull 2 200 false).ranks⟩,
      ⟨3, (emptyFull 3 300 false).ranks⟩]
    [] [[100]]

/-- A store of one full snapshot, two threads idle. -/
def opened : Locking Bool where
  world := @finalState _ _ _ (@ManifestIo.persist serde)
    ⟨⟨.empty, [], 0, fun _ _ => true, fun _ => true⟩, listing [emptyFull 1 100 false] ∅, none, .default⟩
  poisoned := false
  stale := false
  program _ := []
  saw _ := false
  trusted _ := false
  tainted := false
  leaked := false

def steps (i : Bool) (count : Nat) : List (LockEvent Bool) := List.replicate count (.next i)

/-- A save panics with its snapshot in the list and not in storage. -/
def panicking : List (LockEvent Bool) :=
  .start false (.save (emptyFull 2 200 false)) :: steps false 8 ++
    [.panic false (listing [emptyFull 1 100 false, emptyFull 2 200 false] {1})]

/-- The next call pins a step, which reads nothing again. -/
def pinning : List (LockEvent Bool) := panicking ++ .start true (.setPinned 100 true) :: steps true 3

/-- The next call is a save, which does. -/
def saving : List (LockEvent Bool) :=
  panicking ++ .start true (.save (emptyFull 3 300 false)) :: steps true 14

def stored (s : Locking Bool) : Option (List Uuid) :=
  (@ManifestIo.load serde s.world.disk.files none).toOption.bind fun m => m.map fun m =>
    m.snapshots.map (·.id)

end Panicked

/-- The pin writes what the panic left: a snapshot that was never saved is listed. -/
theorem Locking.copy_leaked : let _ := Panicked.serde
    ∃ s, run Locking.step (fun _ _ => true) Panicked.opened Panicked.pinning = some s ∧ s.leaked = true ∧
      Panicked.stored s = some [1, 2] := by
  intro serde
  have left : (run Locking.step (fun _ _ => true) Panicked.opened Panicked.pinning).map
      (fun s => (s.leaked, Panicked.stored s)) = some (true, some [1, 2]) := by
    decide +kernel
  obtain ⟨s, ran, left⟩ := Option.map_eq_some_iff.mp left
  obtain ⟨leaked, stored⟩ := Prod.mk.inj left
  exact ⟨s, ran, leaked, stored⟩

/-- The save reads the list again, and writes nothing the panic left. -/
theorem Locking.never_leaked_saving : let _ := Panicked.serde
    ∃ s, run Locking.step Locking.heeds Panicked.opened Panicked.saving = some s ∧ s.leaked = false ∧
      Panicked.stored s = some [1, 3] := by
  intro serde
  have left : (run Locking.step Locking.heeds Panicked.opened Panicked.saving).map Panicked.stored =
      some (some [1, 3]) := by
    decide +kernel
  obtain ⟨s, ran, stored⟩ := Option.map_eq_some_iff.mp left
  exact ⟨s, ran, Locking.never_leaked rfl rfl (reaches_of_run .refl (fun _ _ heeded => heeded) ran), stored⟩

end Moonclip
