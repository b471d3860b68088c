import Moonclip.Storage
import Moonclip.Library.Parties
import Moonclip.Library.Steps
import Mathlib.Data.UInt
import Mathlib.Tactic.Simps.Basic

/-! Copying files from one store to another: workers that share a queue, two counters,
the first error and a budget of bytes, in any interleaving. A step is what one worker
does between two points where another can get in. -/
namespace Moonclip
open Library.Files Library.Parties Library.Steps

/-- What is to be copied, by how many workers at most, and the bytes they may hold.
A listing gives no size for some files. -/
structure CopyFiles where
  files : List (Path × Option UInt64)
  transfers : Nat
  budget : UInt64

namespace CopyFiles

def workers (c : CopyFiles) : Nat := max 1 (min c.transfers (max c.files.length 1))

abbrev File (c : CopyFiles) := Fin c.files.length

variable (c : CopyFiles)

def name (file : c.File) : Path := c.files[file].1

/-- A size the listing did not give is taken as the whole budget. -/
def size (file : c.File) : UInt64 := c.files[file].2.getD c.budget

/-- `bytes.min(self.limit)`. -/
def counted (file : c.File) : UInt64 := min (c.size file) c.budget

/-- How the copy of a file ends. -/
inductive Outcome where
  | synced (data : Bytes)
  | vanished
  | failed (error : MoonclipError)
deriving DecidableEq

def Outcome.isSynced : Outcome → Bool
  | .synced _ => true
  | _ => false

def Outcome.isVanished : Outcome → Bool
  | .vanished => true
  | _ => false

def Outcome.isFailed : Outcome → Bool
  | .failed _ => true
  | _ => false

/-- What a worker that holds a file does with it: reads, writes, counts, and gives the
bytes back. -/
inductive Phase where
  | reading
  | writing (data : Bytes)
  | copied (outcome : Outcome)
  | leaving (stops : Bool)
deriving DecidableEq

/-- Where a worker is: at the first error, at the queue, about to lock the budget,
waiting for it, in between `take` and `drop`, or gone. -/
inductive Place where
  | checking
  | fetching
  | taking (file : c.File)
  | asleep (file : c.File)
  | holding (file : c.File) (phase : Phase)
  | finished
deriving DecidableEq

/-- What one worker does next; a store may fail a request, and a write that failed may
leave anything under the name. A sleeping worker may wake up for no reason, and others
delete from the source. -/
inductive Event where
  | check (i : Fin c.workers)
  | fetch (i : Fin c.workers)
  | take (i : Fin c.workers)
  | wake (i : Fin c.workers)
  | read (i : Fin c.workers) (failure : Option MoonclipError)
  | write (i : Fin c.workers) (failure : Option (MoonclipError × Option Bytes))
  | record (i : Fin c.workers)
  | drop (i : Fin c.workers)
  | vanish (file : Path)

end CopyFiles

open CopyFiles in
/-- A copy under way. `taken` and `handled` are what has happened so far. -/
structure Copying (c : CopyFiles) where
  source : Files
  destination : Files
  next : Nat
  synced : Nat
  vanished : Nat
  failure : Option MoonclipError
  used : UInt64
  places : Fin c.workers → Place c
  taken : List (Fin c.workers × c.File)
  handled : List (c.File × Outcome)

namespace Copying
open CopyFiles
variable {c : CopyFiles}

def new (source destination : Files) : Copying c where
  source := source
  destination := destination
  next := 0
  synced := 0
  vanished := 0
  failure := none
  used := 0
  places _ := .checking
  taken := []
  handled := []

@[simps] def move (s : Copying c) (i : Fin c.workers) (place : Place c) : Copying c :=
  { s with places := Library.Parties.move s.places i place }

theorem places_move {s : Copying c} {i : Fin c.workers} {place : Place c} :
    (s.move i place).places = Library.Parties.move s.places i place := rfl

/-- Every worker that waits for the budget looks at it again. -/
def woken : Place c → Place c
  | .asleep file => .taking file
  | place => place

/-- What a read comes to: a file that is gone is no error. -/
def afterGet : Except MoonclipError Bytes → Phase
  | .ok data => .writing data
  | .error (.notFound _) => .copied .vanished
  | .error e => .copied (.failed e)

/-- The request fails, or the store answers. -/
def get (s : Copying c) (file : c.File) : Option MoonclipError → Except MoonclipError Bytes
  | some e => .error e
  | none => Storage.get s.source (c.name file)

/-- A file is done with, one way or another. -/
def finish (s : Copying c) (i : Fin c.workers) (file : c.File) (outcome : Outcome) : Copying c :=
  { s.move i (.holding file (.copied outcome)) with handled := s.handled ++ [(file, outcome)] }

def afterRead (s : Copying c) (i : Fin c.workers) (file : c.File) : Phase → Copying c
  | .copied outcome => s.finish i file outcome
  | phase => s.move i (.holding file phase)

/-- The counters, or the slot for the first error. -/
def record (s : Copying c) (i : Fin c.workers) (file : c.File) : Outcome → Copying c
  | .synced _ => { s.move i (.holding file (.leaving false)) with synced := s.synced + 1 }
  | .vanished => { s.move i (.holding file (.leaving false)) with vanished := s.vanished + 1 }
  | .failed e => { s.move i (.holding file (.leaving true)) with failure := s.failure.or (some e) }

def step (s : Copying c) : Event c → Option (Copying c)
  | .check i =>
    match s.places i with
    | .checking => some (s.move i (if s.failure.isSome then .finished else .fetching))
    | _ => none
  | .fetch i =>
    match s.places i with
    | .fetching =>
      if more : s.next < c.files.length then
        some { s.move i (.taking ⟨s.next, more⟩) with
          next := s.next + 1
          taken := s.taken ++ [(i, ⟨s.next, more⟩)] }
      else some { s.move i .finished with next := s.next + 1 }
    | _ => none
  | .take i =>
    match s.places i with
    | .taking file =>
      if 0 < s.used ∧ c.budget < s.used + c.counted file then some (s.move i (.asleep file))
      else some { s.move i (.holding file .reading) with used := s.used + c.counted file }
    | _ => none
  | .wake i =>
    match s.places i with
    | .asleep file => some (s.move i (.taking file))
    | _ => none
  | .read i failure =>
    match s.places i with
    | .holding file .reading => some (s.afterRead i file (afterGet (s.get file failure)))
    | _ => none
  | .write i failure =>
    match s.places i with
    | .holding file (.writing data) =>
      match failure with
      | none => some { s.finish i file (.synced data) with
          destination := s.destination.put (c.name file) data }
      | some (e, left) => some { s.finish i file (.failed e) with
          destination := left.elim s.destination (s.destination.put (c.name file)) }
    | _ => none
  | .record i =>
    match s.places i with
    | .holding file (.copied outcome) => some (s.record i file outcome)
    | _ => none
  | .drop i =>
    match s.places i with
    | .holding file (.leaving stops) => some { s with
        used := s.used - c.counted file
        places := fun j =>
          woken (Library.Parties.move s.places i (if stops then .finished else .checking) j) }
    | _ => none
  | .vanish file => some { s with source := s.source.delete file }

/-- What the copy returns, once every worker is gone. -/
def result (s : Copying c) : Option (Except MoonclipError (Nat × Nat)) :=
  if ∀ i, s.places i = .finished then
    match s.failure with
    | some e => some (.error e)
    | none => some (.ok (s.synced, s.vanished))
  else none

/-- What a step was, and what it did. -/
inductive Took (s : Copying c) : Event c → Copying c → Prop where
  | stopped (i) (there : s.places i = .checking) (fails : s.failure ≠ none) :
      Took s (.check i) (s.move i .finished)
  | checked (i) (there : s.places i = .checking) (fine : s.failure = none) :
      Took s (.check i) (s.move i .fetching)
  | fetched (i) (there : s.places i = .fetching) (more : s.next < c.files.length) :
      Took s (.fetch i) { s.move i (.taking ⟨s.next, more⟩) with
        next := s.next + 1
        taken := s.taken ++ [(i, ⟨s.next, more⟩)] }
  | drained (i) (there : s.places i = .fetching) (nothing : c.files.length ≤ s.next) :
      Took s (.fetch i) { s.move i .finished with next := s.next + 1 }
  | waits (i) (file) (there : s.places i = .taking file) (used : 0 < s.used)
      (full : c.budget < s.used + c.counted file) : Took s (.take i) (s.move i (.asleep file))
  | admitted (i) (file) (there : s.places i = .taking file)
      (fits : s.used = 0 ∨ s.used + c.counted file ≤ c.budget) :
      Took s (.take i) { s.move i (.holding file .reading) with used := s.used + c.counted file }
  | wakes (i) (file) (there : s.places i = .asleep file) : Took s (.wake i) (s.move i (.taking file))
  | opened (i) (file) (failure) (data) (there : s.places i = .holding file .reading)
      (found : s.source.find? (c.name file) = some data) :
      Took s (.read i failure) (s.move i (.holding file (.writing data)))
  | missed (i) (file) (failure) (outcome) (there : s.places i = .holding file .reading)
      (lost : ∀ data, outcome ≠ .synced data) : Took s (.read i failure) (s.finish i file outcome)
  | written (i) (file) (data) (there : s.places i = .holding file (.writing data)) :
      Took s (.write i none) { s.finish i file (.synced data) with
        destination := s.destination.put (c.name file) data }
  | refused (i) (file) (data) (e) (left) (there : s.places i = .holding file (.writing data)) :
      Took s (.write i (some (e, left))) { s.finish i file (.failed e) with
        destination := left.elim s.destination (s.destination.put (c.name file)) }
  | recorded (i) (file) (outcome) (there : s.places i = .holding file (.copied outcome)) :
      Took s (.record i) (s.record i file outcome)
  | dropped (i) (file) (stops) (there : s.places i = .holding file (.leaving stops)) :
      Took s (.drop i) { s with
        used := s.used - c.counted file
        places := fun j =>
          woken (Library.Parties.move s.places i (if stops then .finished else .checking) j) }
  | vanish (file) : Took s (.vanish file) { s with source := s.source.delete file }

theorem read_took {s : Copying c} {i : Fin c.workers} {file : c.File} {failure : Option MoonclipError}
    (there : s.places i = .holding file .reading) :
    Took s (.read i failure) (s.afterRead i file (afterGet (s.get file failure))) := by
  cases failure with
  | some e =>
    cases e with
    | notFound what => exact .missed i file _ .vanished there nofun
    | _ => exact .missed i file _ _ there nofun
  | none =>
    cases found : s.source.find? (c.name file) with
    | some data =>
      simp only [get, Storage.get, found]
      exact .opened i file none data there found
    | none =>
      simp only [get, Storage.get, found]
      exact .missed i file none .vanished there nofun

theorem took {s t : Copying c} {event : Event c} (stepped : step s event = some t) : Took s event t := by
  cases event with
  | check i =>
    simp only [step] at stepped
    split at stepped
    · rename_i there
      obtain rfl := Option.some.inj stepped
      cases fine : s.failure with
      | none => simpa using Took.checked i there fine
      | some e => simpa using Took.stopped i there (by simp [fine])
    · contradiction
  | fetch i =>
    simp only [step] at stepped
    split at stepped
    · rename_i there
      split at stepped
      · rename_i more
        obtain rfl := Option.some.inj stepped
        exact .fetched i there more
      · rename_i nothing
        obtain rfl := Option.some.inj stepped
        exact .drained i there (by omega)
    · contradiction
  | take i =>
    simp only [step] at stepped
    split at stepped
    · rename_i file there
      split at stepped
      · rename_i full
        obtain rfl := Option.some.inj stepped
        exact .waits i file there full.1 full.2
      · rename_i fits
        obtain rfl := Option.some.inj stepped
        refine .admitted i file there ?_
        rcases not_and_or.mp fits with unused | fits
        · exact .inl (UInt64.le_zero_iff.mp (UInt64.not_lt.mp unused))
        · exact .inr (UInt64.not_lt.mp fits)
    · contradiction
  | wake i =>
    simp only [step] at stepped
    split at stepped
    · rename_i file there
      obtain rfl := Option.some.inj stepped
      exact .wakes i file there
    · contradiction
  | read i failure =>
    simp only [step] at stepped
    split at stepped
    · rename_i file there
      obtain rfl := Option.some.inj stepped
      exact read_took there
    · contradiction
  | write i failure =>
    simp only [step] at stepped
    split at stepped
    · rename_i file data there
      cases failure with
      | none =>
        obtain rfl := Option.some.inj stepped
        exact .written i file data there
      | some failure =>
        obtain rfl := Option.some.inj stepped
        exact .refused i file data failure.1 failure.2 there
    · contradiction
  | record i =>
    simp only [step] at stepped
    split at stepped
    · rename_i file outcome there
      obtain rfl := Option.some.inj stepped
      exact .recorded i file outcome there
    · contradiction
  | drop i =>
    simp only [step] at stepped
    split at stepped
    · rename_i file stops there
      obtain rfl := Option.some.inj stepped
      exact .dropped i file stops there
    · contradiction
  | vanish file =>
    obtain rfl := Option.some.inj stepped
    exact .vanish file

/-- This worker has the file, and its copy has not ended. -/
def pending (file : c.File) : Place c → Nat
  | .taking f | .asleep f | .holding f .reading | .holding f (.writing _) => if f = file then 1 else 0
  | _ => 0

/-- A measure of the file a worker holds. -/
def held (f : c.File → Nat) : Place c → Nat
  | .holding file _ => f file
  | _ => 0

/-- The copy has ended so, and is not counted yet. -/
def uncounted (kind : Outcome → Bool) : Place c → Nat
  | .holding _ (.copied outcome) => if kind outcome then 1 else 0
  | _ => 0

variable {s t : Copying c} {event : Event c} {i : Fin c.workers}

/-- The queue: each file goes to one worker, and is with it until its copy has ended. -/
structure Queued (s : Copying c) : Prop where
  order : s.taken.map (·.2) = (List.finRange c.files.length).take s.next
  once : ∀ file : c.File, (s.handled.map (·.1)).count file + total (pending file) s.places =
    if file.val < s.next then 1 else 0

theorem queued_new {source destination : Files} : (new source destination : Copying c).Queued where
  order := by simp [new]
  once file := by simp [new, total, pending]

/-- A worker goes on with the file it has. -/
theorem Queued.move (queued : s.Queued) (i : Fin c.workers) (place : Place c)
    (same : ∀ file, pending file place = pending file (s.places i)) : (s.move i place).Queued where
  order := queued.order
  once file := by
    have moved := total_move (pending file) s.places i place
    have before := queued.once file
    rw [same file] at moved
    simp only [move_handled, places_move, move_next]
    omega

/-- The copy of a file ends. -/
theorem Queued.finish (queued : s.Queued) (i : Fin c.workers) (file : c.File) (outcome : Outcome)
    (here : ∀ other, pending other (s.places i) = if file = other then 1 else 0) :
    (s.finish i file outcome).Queued where
  order := queued.order
  once other := by
    have moved := total_move (pending other) s.places i (.holding file (.copied outcome))
    have before := queued.once other
    rw [here other] at moved
    simp only [Copying.finish, places_move, move_next, List.map_append, List.map_cons, List.map_nil,
      List.count_append, List.count_singleton, beq_iff_eq]
    simp only [pending] at moved
    omega

theorem Queued.fetch (queued : s.Queued) (there : s.places i = .fetching) (more : s.next < c.files.length) :
    ({ s.move i (.taking ⟨s.next, more⟩) with
      next := s.next + 1
      taken := s.taken ++ [(i, (⟨s.next, more⟩ : c.File))] }).Queued where
  order := by
    have within : s.next < (List.finRange c.files.length).length := by simpa using more
    rw [List.map_append, queued.order, List.take_succ_eq_append_getElem within]
    simp
  once file := by
    have moved := total_move (pending file) s.places i (.taking ⟨s.next, more⟩)
    have before := queued.once file
    simp only [there, pending] at moved
    simp only [places_move, move_handled]
    by_cases this_ : s.next = file.val
    · simp only [this_, if_true] at moved
      simp only [this_, Nat.lt_irrefl, if_false] at before
      simp only [this_, Nat.lt_succ_self, if_true]
      omega
    · simp only [Fin.ext_iff, this_, if_false] at moved
      have same : file.val < s.next + 1 ↔ file.val < s.next := by omega
      simp only [same]
      omega

theorem Queued.drain (queued : s.Queued) (there : s.places i = .fetching)
    (nothing : c.files.length ≤ s.next) :
    ({ s.move i .finished with next := s.next + 1 }).Queued where
  order := by
    have all := queued.order
    rw [List.take_of_length_le (by simpa using nothing)] at all
    rw [List.take_of_length_le (by simp; omega)]
    exact all
  once file := by
    have moved := total_move (pending file) s.places i .finished
    have before := queued.once file
    have within := file.isLt
    simp only [there, pending] at moved
    simp only [places_move, move_handled]
    rw [if_pos (by omega)] at before
    rw [if_pos (by omega)]
    omega

theorem pending_woken (file : c.File) (place : Place c) :
    pending file (woken place) = pending file place := by
  cases place <;> rfl

theorem Queued.next (queued : s.Queued) (took : Took s event t) : t.Queued := by
  cases took with
  | stopped i there => exact queued.move _ _ (by simp [there, pending])
  | checked i there => exact queued.move _ _ (by simp [there, pending])
  | fetched i there more => exact queued.fetch there more
  | drained i there nothing => exact queued.drain there nothing
  | waits i file there => exact queued.move _ _ (by simp [there, pending])
  | admitted i file there =>
    have moved := queued.move i (.holding file .reading) (by simp [there, pending])
    exact ⟨moved.order, moved.once⟩
  | wakes i file there => exact queued.move _ _ (by simp [there, pending])
  | opened i file failure data there => exact queued.move _ _ (by simp [there, pending])
  | missed i file failure outcome there => exact queued.finish _ _ _ (by simp [there, pending])
  | written i file data there =>
    have finished := queued.finish i file (.synced data) (by simp [there, pending])
    exact ⟨finished.order, finished.once⟩
  | refused i file data e left there =>
    have finished := queued.finish i file (.failed e) (by simp [there, pending])
    exact ⟨finished.order, finished.once⟩
  | recorded i file outcome there =>
    cases outcome with
    | synced data =>
      have moved := queued.move i (.holding file (.leaving false)) (by simp [there, pending])
      exact ⟨moved.order, moved.once⟩
    | vanished =>
      have moved := queued.move i (.holding file (.leaving false)) (by simp [there, pending])
      exact ⟨moved.order, moved.once⟩
    | failed e =>
      have moved := queued.move i (.holding file (.leaving true)) (by simp [there, pending])
      exact ⟨moved.order, moved.once⟩
  | dropped i file stops there =>
    have moved := queued.move i (if stops then .finished else .checking)
      (by cases stops <;> simp [there, pending])
    refine ⟨moved.order, fun file => ?_⟩
    simp only [total_map (pending_woken file)]
    exact moved.once file
  | vanish file => exact ⟨queued.order, queued.once⟩

/-- The counters: what has ended is counted, or the worker is about to. -/
structure Counted (s : Copying c) : Prop where
  synced : s.synced + total (uncounted Outcome.isSynced) s.places =
    s.handled.countP fun h => h.2.isSynced
  vanished : s.vanished + total (uncounted Outcome.isVanished) s.places =
    s.handled.countP fun h => h.2.isVanished
  failed : 0 < s.handled.countP (fun h => h.2.isFailed) →
    s.failure ≠ none ∨ 0 < total (uncounted Outcome.isFailed) s.places
  stopping : ∀ i file, s.places i = .holding file (.leaving true) → s.failure ≠ none
  done : ∀ i, s.places i = .finished → s.failure ≠ none ∨ c.files.length ≤ s.next

theorem counted_new {source destination : Files} : (new source destination : Copying c).Counted where
  synced := by simp [new, total, uncounted]
  vanished := by simp [new, total, uncounted]
  failed := by simp [new]
  stopping := nofun
  done := nofun

theorem Counted.move (counted : s.Counted) (i : Fin c.workers) (place : Place c)
    (same : ∀ kind, uncounted kind place = uncounted kind (s.places i))
    (stopping : ∀ file, place ≠ .holding file (.leaving true))
    (done : place = .finished → s.failure ≠ none ∨ c.files.length ≤ s.next) : (s.move i place).Counted := by
  have kept : ∀ kind, total (uncounted kind) (s.move i place).places = total (uncounted kind) s.places := by
    intro kind
    have moved := total_move (uncounted kind) s.places i place
    rw [same kind] at moved
    simp only [places_move]
    omega
  constructor
  · rw [kept]
    exact counted.synced
  · rw [kept]
    exact counted.vanished
  · rw [kept]
    exact counted.failed
  · intro j file there
    rcases of_move there with here | before
    · exact absurd here (stopping file)
    · exact counted.stopping j file before
  · intro j there
    rcases of_move there with here | before
    · exact done here
    · exact counted.done j before

theorem Counted.finish (counted : s.Counted) (i : Fin c.workers) (file : c.File) (outcome : Outcome)
    (here : ∀ kind, uncounted kind (s.places i) = 0) : (s.finish i file outcome).Counted := by
  have more : ∀ kind, total (uncounted kind) (s.finish i file outcome).places =
      total (uncounted kind) s.places + if kind outcome then 1 else 0 := by
    intro kind
    have moved := total_move (uncounted kind) s.places i (.holding file (.copied outcome))
    rw [here kind] at moved
    exact moved
  have logged : ∀ kind : Outcome → Bool, (s.finish i file outcome).handled.countP (fun h => kind h.2) =
      s.handled.countP (fun h => kind h.2) + if kind outcome then 1 else 0 := by
    intro kind
    simp [Copying.finish, List.countP_append, List.countP_singleton]
  have synced := counted.synced
  have vanished := counted.vanished
  have failed := counted.failed
  constructor
  · rw [more, logged, ← synced]
    exact (Nat.add_assoc ..).symm
  · rw [more, logged, ← vanished]
    exact (Nat.add_assoc ..).symm
  · rw [more, logged]
    intro some_
    by_cases this_ : outcome.isFailed = true
    · simp [this_]
    · simp only [this_, Bool.false_eq_true, if_false, Nat.add_zero] at some_ ⊢
      exact failed some_
  · intro j other there
    rcases of_move there with here | before
    · cases here
    · exact counted.stopping j other before
  · intro j there
    rcases of_move there with here | before
    · contradiction
    · exact counted.done j before

/-- What has ended is counted. -/
theorem Counted.record {file : c.File} {outcome : Outcome} (counted : s.Counted)
    (there : s.places i = .holding file (.copied outcome)) : (s.record i file outcome).Counted := by
  have less : ∀ kind stops, total (uncounted kind) (s.move i (.holding file (.leaving stops))).places +
      (if kind outcome then 1 else 0) = total (uncounted kind) s.places := by
    intro kind stops
    have moved := total_move (uncounted kind) s.places i (.holding file (.leaving stops))
    rw [there] at moved
    exact moved
  have synced := counted.synced
  have vanished := counted.vanished
  have failed := counted.failed
  rw [← less Outcome.isSynced outcome.isFailed] at synced
  rw [← less Outcome.isVanished outcome.isFailed] at vanished
  rw [← less Outcome.isFailed outcome.isFailed] at failed
  have done : ∀ j, (s.move i (.holding file (.leaving outcome.isFailed))).places j = .finished →
      s.failure ≠ none ∨ c.files.length ≤ s.next := by
    intro j finished
    rcases of_move finished with here | before
    · contradiction
    · exact counted.done j before
  have stopping : outcome.isFailed = false → ∀ j other,
      (s.move i (.holding file (.leaving outcome.isFailed))).places j = .holding other (.leaving true) →
      s.failure ≠ none := by
    intro fine j other leaving
    rcases of_move leaving with here | before
    · simp [fine] at here
    · exact counted.stopping j other before
  cases outcome with
  | synced data =>
    refine ⟨?_, vanished, failed, stopping rfl, done⟩
    exact (Nat.add_right_comm ..).trans synced
  | vanished =>
    refine ⟨synced, ?_, failed, stopping rfl, done⟩
    exact (Nat.add_right_comm ..).trans vanished
  | failed e =>
    have stored : s.failure.or (some e) ≠ none := by cases s.failure <;> simp
    exact ⟨synced, vanished, fun _ => .inl stored, fun _ _ _ => stored, fun _ _ => .inl stored⟩

theorem uncounted_woken (kind : Outcome → Bool) (place : Place c) :
    uncounted kind (woken place) = uncounted kind place := by
  cases place <;> rfl

theorem of_woken {place : Place c} {q : Place c} (there : woken place = q)
    (still : ∀ file, q ≠ .taking file) :
    place = q := by
  cases place with
  | asleep file => exact absurd there.symm (still file)
  | _ => exact there

theorem Counted.drop {file : c.File} {stops : Bool} (counted : s.Counted)
    (there : s.places i = .holding file (.leaving stops)) :
    ({ s with
      used := s.used - c.counted file
      places := fun j => woken (Library.Parties.move s.places i (if stops then .finished else .checking) j) }
        : Copying c).Counted := by
  have moved : (s.move i (if stops then .finished else .checking)).Counted := by
    apply counted.move
    · cases stops <;> simp [there, uncounted]
    · cases stops <;> simp
    · intro finished
      cases stops with
      | true => exact .inl (counted.stopping i file there)
      | false => contradiction
  refine ⟨?_, ?_, ?_, fun j file leaving => ?_, fun j finished => ?_⟩
  · rw [total_map (uncounted_woken _)]
    exact moved.synced
  · rw [total_map (uncounted_woken _)]
    exact moved.vanished
  · rw [total_map (uncounted_woken _)]
    exact moved.failed
  · exact moved.stopping j file (of_woken leaving nofun)
  · exact moved.done j (of_woken finished nofun)

theorem Counted.next (counted : s.Counted) (took : Took s event t) : t.Counted := by
  cases took with
  | stopped i there fails => exact counted.move _ _ (by simp [there, uncounted]) nofun fun _ => .inl fails
  | checked i there => exact counted.move _ _ (by simp [there, uncounted]) nofun nofun
  | fetched i there more =>
    have moved := counted.move i (.taking ⟨s.next, more⟩) (by simp [there, uncounted]) nofun nofun
    refine ⟨moved.synced, moved.vanished, moved.failed, moved.stopping, fun j finished => ?_⟩
    exact (moved.done j finished).imp id fun all => Nat.le_succ_of_le all
  | drained i there nothing =>
    have moved := counted.move i .finished (by simp [there, uncounted]) nofun
      fun _ => .inr nothing
    refine ⟨moved.synced, moved.vanished, moved.failed, moved.stopping, fun j finished => ?_⟩
    exact (moved.done j finished).imp id fun all => Nat.le_succ_of_le all
  | waits i file there => exact counted.move _ _ (by simp [there, uncounted]) nofun nofun
  | admitted i file there =>
    have moved := counted.move i (.holding file .reading) (by simp [there, uncounted]) nofun nofun
    exact ⟨moved.synced, moved.vanished, moved.failed, moved.stopping, moved.done⟩
  | wakes i file there => exact counted.move _ _ (by simp [there, uncounted]) nofun nofun
  | opened i file failure data there => exact counted.move _ _ (by simp [there, uncounted]) nofun nofun
  | missed i file failure outcome there => exact counted.finish _ _ _ (by simp [there, uncounted])
  | written i file data there =>
    have finished := counted.finish i file (.synced data) (by simp [there, uncounted])
    exact ⟨finished.synced, finished.vanished, finished.failed, finished.stopping, finished.done⟩
  | refused i file data e left there =>
    have finished := counted.finish i file (.failed e) (by simp [there, uncounted])
    exact ⟨finished.synced, finished.vanished, finished.failed, finished.stopping, finished.done⟩
  | recorded i file outcome there => exact counted.record there
  | dropped i file stops there => exact counted.drop there
  | vanish file =>
    exact ⟨counted.synced, counted.vanished, counted.failed, counted.stopping, counted.done⟩

/-- The bytes: what is read is what the source had, and what is written stays unless a
write fails. -/
structure Copied (original : Files) (s : Copying c) : Prop where
  source : ∀ p data, s.source.find? p = some data → original.find? p = some data
  read : ∀ i file data, s.places i = .holding file (.writing data) →
    original.find? (c.name file) = some data
  synced : ∀ file data, (file, .synced data) ∈ s.handled → original.find? (c.name file) = some data
  landed : (∀ file e, (file, .failed e) ∉ s.handled) → ∀ file data, (file, .synced data) ∈ s.handled →
    s.destination.find? (c.name file) = some data

variable {original destination : Files}

theorem copied_new : (new original destination : Copying c).Copied original where
  source _ _ there := there
  read := nofun
  synced := nofun
  landed _ := nofun

theorem Copied.move (copied : s.Copied original) (i : Fin c.workers) (place : Place c)
    (reads : ∀ file data, place = .holding file (.writing data) → original.find? (c.name file) = some data) :
    (s.move i place).Copied original where
  source := copied.source
  read j file data there := by
    rcases of_move there with here | before
    · exact reads file data here
    · exact copied.read j file data before
  synced := copied.synced
  landed := copied.landed

theorem Copied.finish (copied : s.Copied original) (i : Fin c.workers) (file : c.File) (outcome : Outcome)
    (lost : ∀ data, outcome ≠ .synced data) : (s.finish i file outcome).Copied original := by
  have logged : ∀ other data, (other, Outcome.synced data) ∈ s.handled ++ [(file, outcome)] →
      (other, Outcome.synced data) ∈ s.handled := by
    intro other data there
    rcases List.mem_append.mp there with before | last
    · exact before
    · obtain ⟨-, same⟩ := Prod.mk.inj (List.mem_singleton.mp last)
      exact absurd same.symm (lost data)
  have moved := copied.move i (.holding file (.copied outcome)) nofun
  refine ⟨moved.source, moved.read, fun other data there => moved.synced other data (logged other data there),
    fun fine other data there => moved.landed (fun other e failed => ?_) other data (logged other data there)⟩
  exact fine other e (List.mem_append_left _ failed)

theorem Copied.write {file : c.File} {data : Bytes} (copied : s.Copied original)
    (there : s.places i = .holding file (.writing data)) :
    ({ s.finish i file (.synced data) with
      destination := s.destination.put (c.name file) data }).Copied original := by
  have same := copied.read i file data there
  have moved := copied.move i (.holding file (.copied (.synced data))) nofun
  have logged : ∀ other found, (other, Outcome.synced found) ∈ s.handled ++ [(file, .synced data)] →
      (other, Outcome.synced found) ∈ s.handled ∨ other = file ∧ found = data := by
    intro other found there
    rcases List.mem_append.mp there with before | last
    · exact .inl before
    · exact .inr (by simpa using last)
  refine ⟨moved.source, moved.read, fun other found there => ?_, fun fine other found there => ?_⟩
  · rcases logged other found there with before | ⟨rfl, rfl⟩
    · exact copied.synced other found before
    · exact same
  · have origin : original.find? (c.name other) = some found := by
      rcases logged other found there with before | ⟨rfl, rfl⟩
      · exact copied.synced other found before
      · exact same
    by_cases name : c.name other = c.name file
    · rw [name, same] at origin
      simp [name, origin]
    · rcases logged other found there with before | ⟨rfl, rfl⟩
      · rw [FileStore.find?_put_of_ne name]
        exact copied.landed (fun other e failed => fine other e (List.mem_append_left _ failed))
          other found before
      · exact absurd rfl name

theorem Copied.refuse {file : c.File} {e : MoonclipError} {left : Option Bytes}
    (copied : s.Copied original) :
    ({ s.finish i file (.failed e) with
      destination := left.elim s.destination (s.destination.put (c.name file)) }).Copied original := by
  have finished := copied.finish i file (.failed e) nofun
  refine ⟨finished.source, finished.read, finished.synced, fun fine => ?_⟩
  exact absurd (List.mem_append_right _ (List.mem_singleton.mpr rfl)) (fine file e)

theorem Copied.next (copied : s.Copied original) (took : Took s event t) : t.Copied original := by
  cases took with
  | stopped i there fails => exact copied.move _ _ nofun
  | checked i there => exact copied.move _ _ nofun
  | fetched i there more =>
    have moved := copied.move i (.taking ⟨s.next, more⟩) nofun
    exact ⟨moved.source, moved.read, moved.synced, moved.landed⟩
  | drained i there nothing =>
    have moved := copied.move i .finished nofun
    exact ⟨moved.source, moved.read, moved.synced, moved.landed⟩
  | waits i file there => exact copied.move _ _ nofun
  | admitted i file there =>
    have moved := copied.move i (.holding file .reading) nofun
    exact ⟨moved.source, moved.read, moved.synced, moved.landed⟩
  | wakes i file there => exact copied.move _ _ nofun
  | opened i file failure data there found =>
    apply copied.move
    intro other data' same
    simp only [Place.holding.injEq, Phase.writing.injEq] at same
    obtain ⟨rfl, rfl⟩ := same
    exact copied.source _ _ found
  | missed i file failure outcome there lost => exact copied.finish _ _ _ lost
  | written i file data there => exact copied.write there
  | refused i file data e left there => exact copied.refuse
  | recorded i file outcome there =>
    cases outcome with
    | synced data =>
      have moved := copied.move i (.holding file (.leaving false)) nofun
      exact ⟨moved.source, moved.read, moved.synced, moved.landed⟩
    | vanished =>
      have moved := copied.move i (.holding file (.leaving false)) nofun
      exact ⟨moved.source, moved.read, moved.synced, moved.landed⟩
    | failed e =>
      have moved := copied.move i (.holding file (.leaving true)) nofun
      exact ⟨moved.source, moved.read, moved.synced, moved.landed⟩
  | dropped i file stops there =>
    have moved := copied.move i (if stops then .finished else .checking)
      (by cases stops <;> simp)
    exact ⟨moved.source, fun j other data reads =>
      moved.read j other data (of_woken reads nofun), moved.synced,
      moved.landed⟩
  | vanish file =>
    refine ⟨fun p data there => ?_, copied.read, copied.synced, copied.landed⟩
    by_cases same : p = file
    · simp [same] at there
    · exact copied.source p data (by simpa [same] using there)

/-- What the files held count for. -/
def weight (s : Copying c) : Nat := total (held fun file => (c.counted file).toNat) s.places

/-- The budget: `used` is what the files held count for, as far as 64 bits go, and
nobody sleeps while that is nothing. -/
structure Budgeted (s : Copying c) : Prop where
  used : s.used.toNat = s.weight % 2 ^ 64
  asleep : ∀ i file, s.places i = .asleep file → 0 < s.weight

theorem budgeted_new : (new original destination : Copying c).Budgeted where
  used := by simp [new, weight, total, held]
  asleep := nofun

theorem weight_move (place : Place c) :
    (s.move i place).weight + held (fun file => (c.counted file).toNat) (s.places i) =
      s.weight + held (fun file => (c.counted file).toNat) place := total_move _ _ _ _

theorem Budgeted.move (budgeted : s.Budgeted) (i : Fin c.workers) (place : Place c)
    (same : ∀ f, held f place = held f (s.places i))
    (sleeps : ∀ file, place = .asleep file → 0 < s.used) : (s.move i place).Budgeted := by
  have kept : (s.move i place).weight = s.weight := by
    have moved := weight_move (s := s) (i := i) place
    rw [same] at moved
    exact Nat.add_right_cancel moved
  have used := budgeted.used
  refine ⟨by rw [kept]; exact used, fun j file there => ?_⟩
  rw [kept]
  rcases of_move there with here | before
  · have some_ : 0 < s.used.toNat := UInt64.lt_iff_toNat_lt.mp (sleeps file here)
    omega
  · exact budgeted.asleep j file before

/-- A file is let through: it counts from here on. -/
theorem Budgeted.admitted {file : c.File} (budgeted : s.Budgeted) (there : s.places i = .taking file) :
    ({ s.move i (.holding file .reading) with used := s.used + c.counted file }).Budgeted := by
  have moved := weight_move (s := s) (i := i) (.holding file .reading)
  have before := budgeted.used
  rw [there] at moved
  simp only [held, Nat.add_zero] at moved
  refine ⟨?_, fun j other sleeps => ?_⟩
  · change (s.used + c.counted file).toNat = (s.move i (.holding file .reading)).weight % 2 ^ 64
    rw [UInt64.toNat_add, moved, before, Nat.mod_add_mod]
  · change 0 < (s.move i (.holding file .reading)).weight
    rcases of_move sleeps with here | asleep
    · contradiction
    · have some_ := budgeted.asleep j other asleep
      omega

theorem held_woken (f : c.File → Nat) (place : Place c) : held f (woken place) = held f place := by
  cases place <;> rfl

theorem woken_ne_asleep {place : Place c} {file : c.File} : woken place ≠ .asleep file := by
  cases place <;> simp [woken]

theorem weight_drop {file : c.File} {stops : Bool} (there : s.places i = .holding file (.leaving stops)) :
    total (held fun file => (c.counted file).toNat)
        (fun j => woken (Library.Parties.move s.places i (if stops then .finished else .checking) j)) +
      (c.counted file).toNat = s.weight := by
  have moved := weight_move (s := s) (i := i) (if stops then .finished else .checking)
  have gone : ∀ f, held f (if stops then .finished else .checking : Place c) = 0 := by
    cases stops <;> simp [held]
  rw [there, gone] at moved
  rw [total_map (held_woken _)]
  exact moved

theorem Budgeted.drop {file : c.File} {stops : Bool} (budgeted : s.Budgeted)
    (there : s.places i = .holding file (.leaving stops)) :
    ({ s with
      used := s.used - c.counted file
      places := fun j => woken (Library.Parties.move s.places i (if stops then .finished else .checking) j) }
        : Copying c).Budgeted := by
  have before := budgeted.used
  have small := (c.counted file).toNat_lt
  rw [← weight_drop there] at before
  refine ⟨?_, fun j other sleeps => absurd sleeps woken_ne_asleep⟩
  simp only [UInt64.toNat_sub, before, weight]
  omega

theorem Budgeted.next (budgeted : s.Budgeted) (took : Took s event t) : t.Budgeted := by
  cases took with
  | stopped i there fails => exact budgeted.move _ _ (by simp [there, held]) nofun
  | checked i there => exact budgeted.move _ _ (by simp [there, held]) nofun
  | fetched i there more =>
    have moved := budgeted.move i (.taking ⟨s.next, more⟩) (by simp [there, held]) nofun
    exact ⟨moved.used, moved.asleep⟩
  | drained i there nothing =>
    have moved := budgeted.move i .finished (by simp [there, held]) nofun
    exact ⟨moved.used, moved.asleep⟩
  | waits i file there used => exact budgeted.move _ _ (by simp [there, held]) fun _ _ => used
  | admitted i file there => exact budgeted.admitted there
  | wakes i file there => exact budgeted.move _ _ (by simp [there, held]) nofun
  | opened i file failure data there found => exact budgeted.move _ _ (by simp [there, held]) nofun
  | missed i file failure outcome there lost =>
    have moved := budgeted.move i (.holding file (.copied outcome)) (by simp [there, held]) nofun
    exact ⟨moved.used, moved.asleep⟩
  | written i file data there =>
    have moved := budgeted.move i (.holding file (.copied (.synced data)))
      (by simp [there, held]) nofun
    exact ⟨moved.used, moved.asleep⟩
  | refused i file data e left there =>
    have moved := budgeted.move i (.holding file (.copied (.failed e)))
      (by simp [there, held]) nofun
    exact ⟨moved.used, moved.asleep⟩
  | recorded i file outcome there =>
    cases outcome with
    | synced data =>
      have moved := budgeted.move i (.holding file (.leaving false)) (by simp [there, held]) nofun
      exact ⟨moved.used, moved.asleep⟩
    | vanished =>
      have moved := budgeted.move i (.holding file (.leaving false)) (by simp [there, held]) nofun
      exact ⟨moved.used, moved.asleep⟩
    | failed e =>
      have moved := budgeted.move i (.holding file (.leaving true)) (by simp [there, held]) nofun
      exact ⟨moved.used, moved.asleep⟩
  | dropped i file stops there => exact budgeted.drop there
  | vanish file => exact ⟨budgeted.used, budgeted.asleep⟩

/-- The sizes of the files held together are within the budget, or one file larger than
the whole budget is held alone. -/
def Within (s : Copying c) : Prop :=
  total (held fun file => (c.size file).toNat) s.places ≤ c.budget.toNat ∨
    ∃ i file phase, s.places i = .holding file phase ∧ c.budget < c.size file ∧
      ∀ j other phase, s.places j = .holding other phase → j = i

/-- A file is let through without its count overflowing; no file that counts for nothing
goes beside one larger than the whole budget, and no such file goes beside those. -/
def Fits (s : Copying c) : Event c → Prop
  | .take i => ∀ file, s.places i = .taking file →
    s.used.toNat + (c.counted file).toNat < 2 ^ 64 ∧
    (c.counted file = 0 → ∀ j other phase, s.places j = .holding other phase → c.size other ≤ c.budget) ∧
    (s.used = 0 → c.budget < c.size file → ∀ j other phase, s.places j ≠ .holding other phase)
  | _ => True

/-- What the budget keeps while every file fits: a file larger than it leaves room for no
other, not even one that counts for nothing. -/
structure Bounded (s : Copying c) : Prop where
  within : s.weight ≤ c.budget.toNat
  alone : ∀ i j file other phase phase', i ≠ j → s.places i = .holding file phase →
    s.places j = .holding other phase' → c.budget < c.size file → 0 < c.counted other

theorem counted_of_le {file : c.File} (small : c.size file ≤ c.budget) : c.counted file = c.size file :=
  if_pos small

theorem counted_of_lt {file : c.File} (large : c.budget < c.size file) : c.counted file = c.budget :=
  if_neg (UInt64.not_le.mpr large)

theorem counted_le (file : c.File) : (c.counted file).toNat ≤ c.budget.toNat := by
  by_cases small : c.size file ≤ c.budget
  · rw [counted_of_le small]
    exact UInt64.le_iff_toNat_le.mp small
  · rw [counted_of_lt (UInt64.not_le.mp small)]

theorem counted_le_size (file : c.File) : (c.counted file).toNat ≤ (c.size file).toNat := by
  by_cases small : c.size file ≤ c.budget
  · rw [counted_of_le small]
  · rw [counted_of_lt (UInt64.not_le.mp small)]
    exact Nat.le_of_lt (UInt64.lt_iff_toNat_lt.mp (UInt64.not_le.mp small))

theorem held_holding {f : c.File → Nat} {file : c.File} {phase : Phase}
    (there : s.places i = .holding file phase) : held f (s.places i) = f file := by
  rw [there]
  rfl

theorem Bounded.isWithin (bounded : s.Bounded) : s.Within := by
  by_cases large : ∃ i file phase, s.places i = .holding file phase ∧ c.budget < c.size file
  · obtain ⟨i, file, phase, there, large⟩ := large
    refine .inr ⟨i, file, phase, there, large, fun j other phase' too => ?_⟩
    by_contra apart
    have some_ := bounded.alone i j file other phase phase' (Ne.symm apart) there too large
    have both := pair_le_total (held fun file => (c.counted file).toNat) s.places (Ne.symm apart)
    have within := bounded.within
    rw [held_holding there, held_holding too, counted_of_lt large] at both
    have positive := UInt64.lt_iff_toNat_lt.mp some_
    simp only [UInt64.toNat_zero] at positive
    simp only [weight] at within
    omega
  · have small : ∀ i file phase, s.places i = .holding file phase → c.size file ≤ c.budget := by
      intro i file phase there
      by_contra exceeds
      exact large ⟨i, file, phase, there, UInt64.not_le.mp exceeds⟩
    refine .inl (Nat.le_trans (total_le_total fun i => ?_) bounded.within)
    cases place : s.places i with
    | holding file phase =>
      simp only [held, counted_of_le (small i file phase place)]
      exact Nat.le_refl _
    | _ => exact Nat.le_refl _

theorem bounded_new : (new original destination : Copying c).Bounded where
  within := by simp [new, weight, total, held]
  alone := nofun

/-- A worker goes on, and holds what it held. -/
theorem Bounded.move (bounded : s.Bounded) (i : Fin c.workers) (place : Place c)
    (same : ∀ f, held f place = held f (s.places i))
    (holds : ∀ file phase, place = .holding file phase → ∃ phase, s.places i = .holding file phase) :
    (s.move i place).Bounded where
  within := by
    have moved := weight_move (s := s) (i := i) place
    rw [same] at moved
    rw [Nat.add_right_cancel moved]
    exact bounded.within
  alone j k file other phase phase' apart one two := by
    have held : ∀ j file phase, (s.move i place).places j = .holding file phase →
        ∃ phase, s.places j = .holding file phase := by
      intro j file phase there
      by_cases here : j = i
      · subst here
        apply holds file phase
        simpa using there
      · exact ⟨phase, by simpa [places_move, move_of_ne here] using there⟩
    obtain ⟨_, one⟩ := held j file phase one
    obtain ⟨_, two⟩ := held k other phase' two
    exact bounded.alone j k file other _ _ apart one two

theorem weight_of_used (budgeted : s.Budgeted) (bounded : s.Bounded) : s.used.toNat = s.weight := by
  have small := c.budget.toNat_lt
  have within := bounded.within
  rw [budgeted.used]
  omega

theorem Bounded.admitted {file : c.File} (bounded : s.Bounded) (budgeted : s.Budgeted)
    (there : s.places i = .taking file) (fits : s.used = 0 ∨ s.used + c.counted file ≤ c.budget)
    (meets : s.Fits (.take i)) :
    ({ s.move i (.holding file .reading) with used := s.used + c.counted file }).Bounded := by
  obtain ⟨fit, light, heavy⟩ := meets file there
  have used := weight_of_used budgeted bounded
  have within : s.weight + (c.counted file).toNat ≤ c.budget.toNat := by
    rcases fits with unused | fits
    · rw [← used, unused]
      simpa using counted_le file
    · have le := UInt64.le_iff_toNat_le.mp fits
      rw [UInt64.toNat_add, Nat.mod_eq_of_lt fit] at le
      omega
  refine ⟨?_, fun j k one two phase phase' apart here too large => ?_⟩
  · have moved := weight_move (s := s) (i := i) (.holding file .reading)
    rw [there] at moved
    simp only [held, Nat.add_zero] at moved
    change (s.move i (.holding file .reading)).weight ≤ c.budget.toNat
    omega
  · simp only [places_move] at here too
    by_cases first : j = i
    · subst first
      rw [move_self] at here
      rw [move_of_ne (Ne.symm apart)] at too
      obtain ⟨rfl, -⟩ := Place.holding.inj here
      rw [counted_of_lt large] at within
      have unused : s.used = 0 := UInt64.toNat_inj.mp (by rw [used, UInt64.toNat_zero]; omega)
      exact absurd too (heavy unused large k two phase')
    · rw [move_of_ne first] at here
      by_cases second : k = i
      · subst second
        rw [move_self] at too
        obtain ⟨rfl, -⟩ := Place.holding.inj too
        by_contra nothing
        have none := UInt64.le_zero_iff.mp (UInt64.not_lt.mp nothing)
        exact absurd large (UInt64.not_lt.mpr (light none j one phase here))
      · rw [move_of_ne second] at too
        exact bounded.alone j k one two phase phase' apart here too large

theorem Bounded.drop {file : c.File} {stops : Bool} (bounded : s.Bounded)
    (there : s.places i = .holding file (.leaving stops)) :
    ({ s with
      used := s.used - c.counted file
      places := fun j => woken (Library.Parties.move s.places i (if stops then .finished else .checking) j) }
        : Copying c).Bounded := by
  have gone : ∀ j other phase,
      woken (Library.Parties.move s.places i (if stops then .finished else .checking) j) =
        .holding other phase →
      s.places j = .holding other phase := by
    intro j other phase holds
    rcases of_move (of_woken holds nofun) with here | before
    · cases stops <;> contradiction
    · exact before
  refine ⟨?_, fun j k one two phase phase' apart here too => ?_⟩
  · have before := weight_drop there
    have within := bounded.within
    simp only [weight] at before within ⊢
    omega
  · exact bounded.alone j k one two phase phase' apart (gone j one phase here) (gone k two phase' too)

theorem Bounded.next (bounded : s.Bounded) (budgeted : s.Budgeted) (took : Took s event t)
    (meets : s.Fits event) : t.Bounded := by
  cases took with
  | stopped i there fails => exact bounded.move _ _ (by simp [there, held]) nofun
  | checked i there => exact bounded.move _ _ (by simp [there, held]) nofun
  | fetched i there more =>
    have moved := bounded.move i (.taking ⟨s.next, more⟩) (by simp [there, held]) nofun
    exact ⟨moved.within, moved.alone⟩
  | drained i there nothing =>
    have moved := bounded.move i .finished (by simp [there, held]) nofun
    exact ⟨moved.within, moved.alone⟩
  | waits i file there used => exact bounded.move _ _ (by simp [there, held]) nofun
  | admitted i file there fits => exact bounded.admitted budgeted there fits meets
  | wakes i file there => exact bounded.move _ _ (by simp [there, held]) nofun
  | opened i file failure data there found =>
    exact bounded.move _ _ (by simp [there, held]) (by simp [there])
  | missed i file failure outcome there lost =>
    have moved := bounded.move i (.holding file (.copied outcome)) (by simp [there, held])
      (by simp [there])
    exact ⟨moved.within, moved.alone⟩
  | written i file data there =>
    have moved := bounded.move i (.holding file (.copied (.synced data)))
      (by simp [there, held]) (by simp [there])
    exact ⟨moved.within, moved.alone⟩
  | refused i file data e left there =>
    have moved := bounded.move i (.holding file (.copied (.failed e)))
      (by simp [there, held]) (by simp [there])
    exact ⟨moved.within, moved.alone⟩
  | recorded i file outcome there =>
    have moved : ∀ stops, (s.move i (.holding file (.leaving stops))).Bounded := fun stops =>
      bounded.move _ _ (by simp [there, held]) (by simp [there])
    cases outcome with
    | synced data => exact ⟨(moved false).within, (moved false).alone⟩
    | vanished => exact ⟨(moved false).within, (moved false).alone⟩
    | failed e => exact ⟨(moved true).within, (moved true).alone⟩
  | dropped i file stops there => exact bounded.drop there
  | vanish file => exact ⟨bounded.within, bounded.alone⟩

/-- Two workers hold a file each: neither is alone. -/
theorem within_pair {j : Fin c.workers} (one two : c.File) (phase phase' : Phase) (within : s.Within)
    (apart : i ≠ j) (here : s.places i = .holding one phase) (too : s.places j = .holding two phase') :
    total (held fun file => (c.size file).toNat) s.places ≤ c.budget.toNat := by
  rcases within with within | ⟨k, _, _, _, _, alone⟩
  · exact within
  · exact absurd ((alone i one phase here).trans (alone j two phase' too).symm) apart

/-- Nothing weaker keeps within the budget: a file that does not fit, once let through,
breaks it. -/
theorem fits_of_within (budgeted : s.Budgeted) (bounded : s.Bounded) (stepped : step s event = some t)
    (within : t.Within) : s.Fits event := by
  have used := weight_of_used budgeted bounded
  have limit := bounded.within
  have small := c.budget.toNat_lt
  cases took stepped with
  | waits i file there some_ full =>
    intro other same
    obtain rfl := Place.taking.inj (there.symm.trans same)
    have exceeds := UInt64.lt_iff_toNat_lt.mp full
    have positive := UInt64.lt_iff_toNat_lt.mp some_
    have room := (c.counted file).toNat_lt
    rw [UInt64.toNat_add] at exceeds
    refine ⟨by omega, fun zero => ?_, fun unused => ?_⟩
    · rw [zero, UInt64.toNat_zero] at exceeds
      omega
    · simp [unused] at some_
  | admitted i file there fits =>
    intro other same
    obtain rfl := Place.taking.inj (there.symm.trans same)
    have beside : ∀ j other phase, s.places j = .holding other phase → i ≠ j ∧
        total (held fun file => (c.size file).toNat) (s.move i (.holding file .reading)).places ≤
          c.budget.toNat := by
      intro j other phase holds
      have apart : i ≠ j := by
        rintro rfl
        rw [there] at holds
        contradiction
      refine ⟨apart, within_pair file other .reading phase within apart ?_ ?_⟩
      · exact move_self
      · exact (move_of_ne (Ne.symm apart)).trans holds
    have mine : (c.size file).toNat ≤
        total (held fun file => (c.size file).toNat) (s.move i (.holding file .reading)).places := by
      have one := le_total (held fun file => (c.size file).toNat)
        ((s.move i (.holding file .reading)).places) i
      rwa [places_move, move_self] at one
    refine ⟨?_, fun _ j other phase holds => ?_, fun _ large j other phase holds => ?_⟩
    · by_contra overflow
      have room := (c.counted file).toNat_lt
      have some_ : 0 < s.weight := by omega
      obtain ⟨j, positive⟩ := exists_of_total_pos some_
      cases place : s.places j with
      | holding other phase =>
        have sizes := (beside j other phase place).2
        have moved := weight_move (s := s) (i := i) (.holding file .reading)
        rw [there] at moved
        simp only [held, Nat.add_zero] at moved
        have le : (s.move i (.holding file .reading)).weight ≤
            total (held fun file => (c.size file).toNat) (s.move i (.holding file .reading)).places := by
          refine total_le_total fun k => ?_
          cases (s.move i (.holding file .reading)).places k with
          | holding other phase => exact counted_le_size other
          | _ => exact Nat.le_refl _
        omega
      | _ => simp [place, held] at positive
    · obtain ⟨apart, sizes⟩ := beside j other phase holds
      have theirs := le_total (held fun file => (c.size file).toNat)
        ((s.move i (.holding file .reading)).places) j
      rw [places_move, move_of_ne (Ne.symm apart), held_holding holds] at theirs
      exact UInt64.le_iff_toNat_le.mpr (Nat.le_trans theirs sizes)
    · have sizes := (beside j other phase holds).2
      have exceeds := UInt64.lt_iff_toNat_lt.mp large
      omega
  | _ => trivial

theorem countP_outcomes (handled : List (c.File × Outcome)) :
    handled.countP (fun h => h.2.isSynced) + handled.countP (fun h => h.2.isVanished) +
      handled.countP (fun h => h.2.isFailed) = handled.length := by
  induction handled with
  | nil => rfl
  | cons h rest ih =>
    have one : (if h.2.isSynced = true then 1 else 0) + (if h.2.isVanished = true then 1 else 0) +
        (if h.2.isFailed = true then 1 else 0) = 1 := by
      cases h.2 <;> rfl
    simp only [List.countP_cons, List.length_cons]
    omega

/-- Everyone is gone, and nothing failed: every file was handled, once. -/
theorem Counted.settled (counted : s.Counted) (queued : s.Queued) {synced vanished : Nat}
    (ended : s.result = some (.ok (synced, vanished))) :
    (∀ file e, (file, .failed e) ∉ s.handled) ∧ (∀ file, (s.handled.map (·.1)).count file = 1) ∧
      synced + vanished = c.files.length := by
  unfold result at ended
  split at ended
  · rename_i gone
    cases failure : s.failure with
    | some e => simp [failure] at ended
    | none =>
      simp only [failure, Option.some.injEq, Except.ok.injEq, Prod.mk.injEq] at ended
      obtain ⟨rfl, rfl⟩ := ended
      have idle : ∀ kind, total (uncounted kind) s.places = 0 := fun kind =>
        total_eq_zero fun i => by rw [gone i]; rfl
      have fine : s.handled.countP (fun h => h.2.isFailed) = 0 := by
        by_contra some_
        have failed := counted.failed (Nat.pos_of_ne_zero some_)
        simp [failure, idle] at failed
      have once : ∀ file, (s.handled.map (·.1)).count file = 1 := by
        intro file
        have through : c.files.length ≤ s.next := by
          have done := counted.done ⟨0, by simp [workers]⟩ (gone _)
          simpa [failure] using done
        have once := queued.once file
        have all := file.isLt
        rw [total_eq_zero fun i => by rw [gone i]; rfl, if_pos (by omega)] at once
        exact once
      have length : s.handled.length = c.files.length := by
        have perm : (s.handled.map (·.1)).Perm (List.finRange c.files.length) := by
          apply List.perm_iff_count.mpr
          intro file
          rw [once file]
          exact (List.count_eq_one_of_mem (List.nodup_finRange _) (List.mem_finRange file)).symm
        simpa using perm.length_eq
      refine ⟨fun file e there => ?_, once, ?_⟩
      · have none := List.countP_eq_zero.mp fine _ there
        simp [Outcome.isFailed] at none
      · have sum := countP_outcomes s.handled
        have synced := counted.synced
        have vanished := counted.vanished
        rw [idle] at synced vanished
        omega
  · contradiction

/-- While some worker is not gone, one of those is not asleep. -/
theorem Budgeted.awake (budgeted : s.Budgeted) (left : ∃ i, s.places i ≠ .finished) :
    ∃ i, s.places i ≠ .finished ∧ ∀ file, s.places i ≠ .asleep file := by
  obtain ⟨i, unfinished⟩ := left
  by_cases sleeps : ∃ file, s.places i = .asleep file
  · obtain ⟨file, asleep⟩ := sleeps
    obtain ⟨j, positive⟩ := exists_of_total_pos (budgeted.asleep i file asleep)
    refine ⟨j, ?_, fun other => ?_⟩
    · intro gone
      simp [gone, held] at positive
    · intro asleep
      simp [asleep, held] at positive
  · exact ⟨i, unfinished, not_exists.mp sleeps⟩

/-- What holds of a copy however its workers take turns, whatever vanishes and whatever
fails; and the budget is kept as long as every file that is let through fits. -/
theorem copyFiles_run (run : Reaches step (fun _ _ => True) (new original destination : Copying c) s) :
    (s.taken.map (·.2)).Nodup ∧
    (∀ synced vanished, s.result = some (.ok (synced, vanished)) →
      (∀ file, (s.handled.map (·.1)).count file = 1) ∧ synced + vanished = c.files.length ∧
      ∀ file data, (file, .synced data) ∈ s.handled →
        original.find? (c.name file) = some data ∧ s.destination.find? (c.name file) = some data) ∧
    (∀ file error, (file, .failed error) ∈ s.handled → ∀ result, s.result = some result →
      ∃ e, result = .error e) ∧
    ((∃ i, s.places i ≠ .finished) → ∃ i, s.places i ≠ .finished ∧ ∀ file, s.places i ≠ .asleep file) ∧
    (Reaches step Fits (new original destination : Copying c) s →
      s.Within ∧ ∀ event t, step s event = some t → (s.Fits event ↔ t.Within)) := by
  have queued : s.Queued := run.invariant _ queued_new fun _ _ _ before _ stepped =>
    before.next (took stepped)
  have counted : s.Counted := run.invariant _ counted_new fun _ _ _ before _ stepped =>
    before.next (took stepped)
  have copied : s.Copied original :=
    run.invariant _ copied_new fun _ _ _ before _ stepped => before.next (took stepped)
  have budgeted : s.Budgeted :=
    run.invariant _ budgeted_new fun _ _ _ before _ stepped => before.next (took stepped)
  refine ⟨?_, fun synced vanished ended => ?_, fun file error there result ended => ?_, budgeted.awake,
    fun fitting => ?_⟩
  · rw [queued.order]
    exact (List.nodup_finRange _).sublist (List.take_sublist ..)
  · obtain ⟨fine, once, sum⟩ := counted.settled queued ended
    exact ⟨once, sum, fun file data there =>
      ⟨copied.synced file data there, copied.landed fine file data there⟩⟩
  · cases result with
    | error e => exact ⟨e, rfl⟩
    | ok counts => exact absurd there ((counted.settled queued ended).1 file error)
  · have start : (new original destination : Copying c).Budgeted ∧
      (new original destination : Copying c).Bounded :=
      ⟨budgeted_new, bounded_new⟩
    have both : s.Budgeted ∧ s.Bounded := fitting.invariant _ start fun t event u before meets stepped =>
      And.intro (before.1.next (took stepped)) (before.2.next before.1 (took stepped) meets)
    refine ⟨both.2.isWithin, fun event t stepped => ⟨fun meets => ?_, fits_of_within budgeted both.2 stepped⟩⟩
    exact (both.2.next budgeted (took stepped) meets).isWithin

/-- Some files, and as many workers as there are. -/
def listing (sizes : List (Option UInt64)) (budget : UInt64) : CopyFiles where
  files := sizes.zipIdx.map fun (size, i) => (packPath 1 i, size)
  transfers := 8
  budget := budget

/-- Two workers, one after the other, up to where they hold a file each. -/
def beside (i j : Fin c.workers) : List (Event c) :=
  [.check i, .fetch i, .take i, .check j, .fetch j, .take j]

/-- Both read, write and leave in turns, and find nothing else to copy. -/
def together (i j : Fin c.workers) : List (Event c) :=
  beside i j ++ [.read i none, .read j none, .write j none, .write i none, .record i, .record j,
    .drop j, .drop i,
    .check i, .fetch i, .check j, .fetch j]

/-- No file is empty, larger than the whole budget, or too much for the count. -/
def ample (s : Copying c) : Event c → Bool
  | .take i => match s.places i with
    | .taking file => decide (s.used.toNat + (c.counted file).toNat < 2 ^ 64 ∧ c.counted file ≠ 0 ∧
        c.size file ≤ c.budget)
    | _ => true
  | _ => true

theorem fits_of_ample {event : Event c} (permitted : s.ample event = true) : s.Fits event := by
  cases event with
  | take i =>
    intro file taking
    simp only [ample, taking, decide_eq_true_eq] at permitted
    obtain ⟨counts, some_, small⟩ := permitted
    exact ⟨counts, fun none => absurd none some_, fun _ large => absurd small (UInt64.not_le.mpr large)⟩
  | _ => trivial

/-- Take the events one by one, whatever they are. -/
def runs (source : Files) (events : List (Event c)) : Option (Copying c) :=
  run step (fun _ _ => true) (new source .empty) events

theorem reaches_of_runs {source : Files} {events : List (Event c)} (ran : runs source events = some s) :
    Reaches step (fun _ _ => True) (new source .empty) s :=
  reaches_of_run .refl (fun _ _ _ => trivial) ran

theorem exists_not_within {j : Fin c.workers} (one two : c.File) {source : Files} (events : List (Event c))
    (apart : i ≠ j) (exceeds : c.budget < c.size one)
    (ran : (runs source events).map (fun s => (s.places i, s.places j)) =
      some (.holding one .reading, .holding two .reading)) :
    ∃ s : Copying c, Reaches step (fun _ _ => True) (new source .empty) s ∧ ¬ s.Within := by
  obtain ⟨s, reached, places⟩ := Option.map_eq_some_iff.mp ran
  obtain ⟨here, too⟩ := Prod.mk.inj places
  refine ⟨s, reaches_of_runs reached, fun within => ?_⟩
  have sizes := within_pair one two .reading .reading within apart here too
  have mine := le_total (held fun file => (c.size file).toNat) s.places i
  rw [held_holding here] at mine
  exact absurd (Nat.le_trans mine sizes) (Nat.not_le.mpr (UInt64.lt_iff_toNat_lt.mp exceeds))

abbrev oversize : CopyFiles := listing [some (2 ^ 30 + 1), some 0] (2 ^ 30)

abbrev unbudgeted : CopyFiles := listing [some 1, some 1] 0

/-- A file larger than the whole budget is held, and an empty one beside it; and with a
budget of nothing everything is held at once. -/
theorem copyFiles_beside :
    (∃ s : Copying oversize, Reaches step (fun _ _ => True) (new .empty .empty) s ∧ ¬ s.Within) ∧
    ∃ s : Copying unbudgeted, Reaches step (fun _ _ => True) (new .empty .empty) s ∧ ¬ s.Within := by
  constructor
  · apply exists_not_within (i := ⟨0, by decide⟩) (j := ⟨1, by decide⟩) ⟨0, by decide⟩ ⟨1, by decide⟩
      (beside ⟨0, by decide⟩ ⟨1, by decide⟩)
    · decide
    · decide
    · decide +kernel
  · apply exists_not_within (i := ⟨0, by decide⟩) (j := ⟨1, by decide⟩) ⟨0, by decide⟩ ⟨1, by decide⟩
      (beside ⟨0, by decide⟩ ⟨1, by decide⟩)
    · decide
    · decide
    · decide +kernel

abbrev pair : CopyFiles := listing [some 1, some 2] 3

def pairSource : Files := (FileStore.empty.put (packPath 1 0) [7]).put (packPath 1 1) [8, 9]

def pairRun (events : List (Event pair)) : Option (Copying pair) :=
  run step ample (new pairSource .empty) events

/-- Two workers hold a file each, within the budget; both files are copied and counted. -/
theorem copyFiles_run_pair :
    (∃ s, pairRun (beside ⟨0, by decide⟩ ⟨1, by decide⟩) = some s ∧
      s.places ⟨0, by decide⟩ = .holding ⟨0, by decide⟩ .reading ∧
      s.places ⟨1, by decide⟩ = .holding ⟨1, by decide⟩ .reading ∧ s.Within) ∧
    ∃ s, pairRun (together ⟨0, by decide⟩ ⟨1, by decide⟩) = some s ∧ s.result = some (.ok (2, 0)) ∧
      (∀ file, (s.handled.map (·.1)).count file = 1) ∧ 2 + 0 = pair.files.length ∧
      s.destination.find? (packPath 1 0) = some [7] ∧ s.destination.find? (packPath 1 1) = some [8, 9] := by
  have reaches : ∀ events s, pairRun events = some s → Reaches step Fits (new pairSource .empty) s ∧
      Reaches step (fun _ _ => True) (new pairSource .empty) s := fun events s ran =>
    ⟨reaches_of_run .refl (fun _ _ => fits_of_ample) ran, reaches_of_run .refl (fun _ _ _ => trivial) ran⟩
  have ran : (pairRun (beside ⟨0, by decide⟩ ⟨1, by decide⟩)).map (fun s =>
        (s.places ⟨0, by decide⟩, s.places ⟨1, by decide⟩)) =
          some (.holding ⟨0, by decide⟩ .reading, .holding ⟨1, by decide⟩ .reading) ∧
      (pairRun (together ⟨0, by decide⟩ ⟨1, by decide⟩)).map (fun s => (s.result, s.handled)) =
        some (some (.ok (2, 0)), [(⟨1, by decide⟩, .synced [8, 9]), (⟨0, by decide⟩, .synced [7])]) := by
    decide +kernel
  obtain ⟨held, done⟩ := ran
  obtain ⟨s, reached, places⟩ := Option.map_eq_some_iff.mp held
  obtain ⟨t, ended, left⟩ := Option.map_eq_some_iff.mp done
  obtain ⟨first, second⟩ := Prod.mk.inj places
  obtain ⟨result, handled⟩ := Prod.mk.inj left
  constructor
  · obtain ⟨fitting, run⟩ := reaches _ s reached
    obtain ⟨-, -, -, -, budget⟩ := copyFiles_run run
    exact ⟨s, reached, first, second, (budget fitting).1⟩
  · obtain ⟨-, settled, -⟩ := copyFiles_run (reaches _ t ended).2
    obtain ⟨once, sum, copied⟩ := settled 2 0 result
    exact ⟨t, ended, result, once, sum, (copied ⟨0, by decide⟩ [7] (by simp [handled])).2,
      (copied ⟨1, by decide⟩ [8, 9] (by simp [handled])).2⟩

end Copying
end Moonclip
