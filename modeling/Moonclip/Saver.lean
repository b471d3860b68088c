import Moonclip.Basic
import Moonclip.Library.Steps
import Mathlib.Logic.Function.Basic
import Mathlib.Tactic.Simps.Basic

/-! The background thread a save is handed to: callers that submit, flush and wait,
and the worker, in any interleaving. A step is what one thread does while it holds the
lock, or between two locks. -/
namespace Moonclip
open Library.Steps

namespace AsyncSaver

/-- The calls of a saver. -/
inductive Call (Job : Type) where
  | submit (job : Job)
  | flush
  | waitIdle
deriving DecidableEq, Repr

/-- Where a caller is: outside, about to take the lock, waiting on the condition
variable, in between the claim and the send, or telling the others that the channel
is closed. -/
inductive Caller (Job : Type) where
  | outside
  | entering (call : Call Job)
  | asleep (call : Call Job)
  | claimed (job : Job)
  | refused (job : Job)
deriving DecidableEq, Repr

/-- How a job ends. -/
inductive Outcome where
  | saved
  | failed (error : String)
  | panicked (payload : Option String)
deriving DecidableEq, Repr

/-- Where the worker is: at the channel, in a job, about to take the lock, about to
notify, or gone. -/
inductive Worker (Job : Type) where
  | receiving
  | running (job : Job)
  | ran (outcome : Outcome)
  | notifying
  | exited
deriving DecidableEq, Repr

/-- The error a job leaves for the next caller. -/
def Outcome.error : Outcome → Option String
  | .saved => none
  | .failed error => some error
  | .panicked payload => some ("save thread panicked: " ++ payload.getD "unknown payload")

def report (error : String) : MoonclipError := .storage ("Background save failed: " ++ error)

/-- What a call came back with. -/
structure Answer (ι Job : Type) where
  caller : ι
  call : Call Job
  result : Except MoonclipError Unit

/-- What one thread does next. A thread may also wake up for no reason. -/
inductive Event (ι Job : Type) where
  | call (i : ι) (call : Call Job)
  | lock (i : ι)
  | wake (i : ι)
  | send (i : ι)
  | hangUp (i : ι)
  | receive
  | finish (outcome : Outcome)
  | release
  | notify
  | close
deriving DecidableEq, Repr

end AsyncSaver

open AsyncSaver in
/-- A saver in use: the flag and the error under the lock, the channel, every thread,
and what has happened so far. `reports` are the failures that calls came back with. -/
structure AsyncSaver (ι Job : Type) where
  busy : Bool
  error : Option String
  channel : List Job
  connected : Bool
  callers : ι → Caller Job
  worker : Worker Job
  accepted : List Job
  finished : List (Job × Outcome)
  reports : List (ι × MoonclipError)
  answers : List (Answer ι Job)

namespace AsyncSaver
variable {ι Job : Type} [DecidableEq ι]

def new : AsyncSaver ι Job where
  busy := false
  error := none
  channel := []
  connected := true
  callers _ := .outside
  worker := .receiving
  accepted := []
  finished := []
  reports := []
  answers := []

@[simps] def move (s : AsyncSaver ι Job) (i : ι) (place : Caller Job) : AsyncSaver ι Job :=
  { s with callers := Function.update s.callers i place }

/-- A call comes back. -/
@[simps] def answer (s : AsyncSaver ι Job) (i : ι) (call : Call Job) (result : Except MoonclipError Unit) :
    AsyncSaver ι Job :=
  { s.move i .outside with answers := s.answers ++ [⟨i, call, result⟩] }

/-- The stored error is taken, and this call comes back with it. -/
def fail (s : AsyncSaver ι Job) (i : ι) (call : Call Job) (error : String) : AsyncSaver ι Job :=
  { s.answer i call (.error (report error)) with
    error := none
    reports := s.reports ++ [(i, report error)] }

/-- Under the lock, and no save in flight. -/
def admitted (s : AsyncSaver ι Job) (i : ι) : Call Job → AsyncSaver ι Job
  | .waitIdle => s.answer i .waitIdle (.ok ())
  | .flush =>
    match s.error with
    | some error => s.fail i .flush error
    | none => s.answer i .flush (.ok ())
  | .submit job =>
    match s.error with
    | some error => s.fail i (.submit job) error
    | none => { s.move i (.claimed job) with busy := true, accepted := s.accepted ++ [job] }

/-- Whoever waits on the condition variable goes on. -/
def woken : Caller Job → Caller Job
  | .asleep call => .entering call
  | place => place

def notifyAll (s : AsyncSaver ι Job) : AsyncSaver ι Job := { s with callers := fun i => woken (s.callers i) }

def step (s : AsyncSaver ι Job) : Event ι Job → Option (AsyncSaver ι Job)
  | .call i call =>
    match s.callers i with
    | .outside =>
      match call with
      | .submit job =>
        if s.connected then some (s.move i (.entering (.submit job)))
        else some (s.answer i (.submit job) (.error (.storage "Background saver is shut down")))
      | call => some (s.move i (.entering call))
    | _ => none
  | .lock i =>
    match s.callers i with
    | .entering call => if s.busy then some (s.move i (.asleep call)) else some (s.admitted i call)
    | _ => none
  | .wake i =>
    match s.callers i with
    | .asleep call => some (s.move i (.entering call))
    | _ => none
  | .send i =>
    match s.callers i with
    | .claimed job =>
      match s.worker with
      | .exited => some { s.move i (.refused job) with busy := false }
      | _ => some { s.answer i (.submit job) (.ok ()) with channel := s.channel ++ [job] }
    | _ => none
  | .hangUp i =>
    match s.callers i with
    | .refused job =>
      some (s.answer i (.submit job) (.error (.storage "Background saver channel closed"))).notifyAll
    | _ => none
  | .receive =>
    match s.worker with
    | .receiving =>
      match s.channel with
      | job :: rest => some { s with channel := rest, worker := .running job }
      | [] => if s.connected then none else some { s with worker := .exited }
    | _ => none
  | .finish outcome =>
    match s.worker with
    | .running job => some { s with
        worker := .ran outcome
        finished := s.finished ++ [(job, outcome)] }
    | _ => none
  | .release =>
    match s.worker with
    | .ran outcome => some { s with
        busy := false
        error := outcome.error.or s.error
        worker := .notifying }
    | _ => none
  | .notify =>
    match s.worker with
    | .notifying => some ({ s with worker := .receiving }).notifyAll
    | _ => none
  | .close => if s.busy then none else some { s with connected := false }

/-- The saver is shut down by whoever owns it, when nobody else can be in a call. -/
def Allowed (s : AsyncSaver ι Job) : Event ι Job → Prop
  | .close => ∀ i, s.callers i = .outside
  | _ => True

/-- Where the one save there may be is. -/
inductive Stage (ι Job : Type) where
  | free
  | claimed (i : ι) (job : Job)
  | queued (job : Job)
  | running (job : Job)
  | ran (outcome : Outcome)

namespace Stage

/-- The job that was accepted and has not ended. -/
def job : Stage ι Job → List Job
  | .claimed _ job | .queued job | .running job => [job]
  | _ => []

def channel : Stage ι Job → List Job
  | .queued job => [job]
  | _ => []

/-- The failure the worker has not put down yet. -/
def failure : Stage ι Job → Option String
  | .ran outcome => outcome.error
  | _ => none

end Stage

/-- The failures of all jobs that have ended, as they are reported. -/
def failures (s : AsyncSaver ι Job) : List MoonclipError :=
  s.finished.filterMap fun f => f.2.error.map report

/-- The protocol, when the save is at `stage`. -/
structure At (s : AsyncSaver ι Job) (stage : Stage ι Job) : Prop where
  busy : s.busy = true ↔ stage ≠ .free
  claimed : ∀ i job, s.callers i = .claimed job ↔ stage = .claimed i job
  channel : s.channel = stage.channel
  running : ∀ job, s.worker = .running job ↔ stage = .running job
  ran : ∀ outcome, s.worker = .ran outcome ↔ stage = .ran outcome
  served : s.accepted = s.finished.map (·.1) ++ stage.job
  reported : s.failures = s.reports.map (·.2) ++ ((s.error.or stage.failure).map report).toList
  clear : s.busy = true → s.error = none
  awake : ∀ i call, s.callers i = .asleep call → s.busy = true ∨ s.worker = .notifying
  closed : s.connected = false → s.busy = false ∧ ∀ i job,
    s.callers i ≠ .entering (.submit job) ∧ s.callers i ≠ .asleep (.submit job)
  exited : s.worker = .exited → s.connected = false
  welcome : ∀ i job, s.callers i ≠ .refused job

variable {s t : AsyncSaver ι Job} {stage : Stage ι Job} {i : ι} {call : Call Job}

omit [DecidableEq ι] in
theorem at_new : (new : AsyncSaver ι Job).At .free := by
  constructor <;> simp [new, failures, Stage.channel, Stage.job, Stage.failure]

/-- A caller goes to a place that is no claim; where it sleeps, a save is in flight. -/
theorem At.move (at_ : s.At stage) (place : Caller Job) (here : ∀ job, s.callers i ≠ .claimed job)
    (free : ∀ job, place ≠ .claimed job) (welcome : ∀ job, place ≠ .refused job)
    (sleeps : ∀ call, place = .asleep call → s.busy = true)
    (open_ : s.connected = false → ∀ job, place ≠ .entering (.submit job) ∧ place ≠ .asleep (.submit job)) :
    (s.move i place).At stage where
  busy := at_.busy
  claimed j job := by
    by_cases same : j = i
    · subst same
      have elsewhere : stage ≠ .claimed j job := fun claims => here job ((at_.claimed j job).mpr claims)
      simp [AsyncSaver.move, free job, elsewhere]
    · simpa [AsyncSaver.move, same] using at_.claimed j job
  channel := at_.channel
  running := at_.running
  ran := at_.ran
  served := at_.served
  reported := at_.reported
  clear := at_.clear
  awake j call asleep := by
    by_cases same : j = i
    · subst same
      exact .inl (sleeps call (by simpa [AsyncSaver.move] using asleep))
    · exact at_.awake j call (by simpa [AsyncSaver.move, same] using asleep)
  closed shut := by
    refine ⟨(at_.closed shut).1, fun j job => ?_⟩
    by_cases same : j = i
    · subst same
      simpa [AsyncSaver.move] using open_ shut job
    · simpa [AsyncSaver.move, same] using (at_.closed shut).2 j job
  exited := at_.exited
  welcome j job := by
    by_cases same : j = i
    · subst same
      simpa [AsyncSaver.move] using welcome job
    · simpa [AsyncSaver.move, same] using at_.welcome j job

theorem At.answer {result : Except MoonclipError Unit} (at_ : s.At stage)
    (here : ∀ job, s.callers i ≠ .claimed job) : (s.answer i call result).At stage := by
  have moved := at_.move .outside here nofun nofun nofun fun _ _ => ⟨nofun, nofun⟩
  exact ⟨moved.busy, moved.claimed, moved.channel, moved.running, moved.ran, moved.served, moved.reported,
    moved.clear, moved.awake, moved.closed, moved.exited, moved.welcome⟩

omit [DecidableEq ι] in
theorem At.free (at_ : s.At stage) (idle : s.busy = false) : stage = .free := by
  by_contra taken
  rw [at_.busy.mpr taken] at idle
  contradiction

omit [DecidableEq ι] in
theorem At.entered (entering : s.callers i = .entering call) (job : Job) : s.callers i ≠ .claimed job := by
  rw [entering]
  nofun

/-- A call that finds a failure takes it away. -/
theorem At.fail {error : String} (at_ : s.At .free) (stored : s.error = some error)
    (here : ∀ job, s.callers i ≠ .claimed job) : (s.fail i call error).At .free := by
  have answered : (s.answer i call (.error (report error))).At .free := at_.answer here
  have reported := at_.reported
  rw [stored] at reported
  refine ⟨answered.busy, answered.claimed, answered.channel, answered.running, answered.ran,
    answered.served, ?_, fun _ => rfl, answered.awake, answered.closed, answered.exited, answered.welcome⟩
  simpa [AsyncSaver.fail, AsyncSaver.answer, AsyncSaver.move, failures, Stage.failure] using reported

/-- A save is accepted: nobody else can be until it has ended. -/
theorem At.accept {job : Job} (at_ : s.At .free) (none : s.error = none) (connected : s.connected = true)
    (here : ∀ job, s.callers i ≠ .claimed job) :
    ({ s.move i (.claimed job) with busy := true, accepted := s.accepted ++ [job] }).At (.claimed i job) where
  busy := by simp
  claimed j other := by
    by_cases same : j = i
    · subst same
      simp [AsyncSaver.move]
    · have elsewhere : s.callers j ≠ .claimed other := fun claims =>
        nomatch (at_.claimed j other).mp claims
      simp [AsyncSaver.move, same, elsewhere, Ne.symm same]
  channel := at_.channel
  running job := by
    have nothing : s.worker ≠ .running job := fun runs => nomatch (at_.running job).mp runs
    simpa [AsyncSaver.move] using nothing
  ran outcome := by
    have nothing : s.worker ≠ .ran outcome := fun ran => nomatch (at_.ran outcome).mp ran
    simpa [AsyncSaver.move] using nothing
  served := by
    have served := at_.served
    simp only [Stage.job, List.append_nil] at served
    simp [AsyncSaver.move, served, Stage.job]
  reported := at_.reported
  clear _ := none
  awake j call asleep := .inl rfl
  closed shut := by
    have shut : s.connected = false := shut
    rw [connected] at shut
    contradiction
  exited := at_.exited
  welcome j job := by
    by_cases same : j = i
    · subst same
      simp [AsyncSaver.move]
    · simpa [AsyncSaver.move, same] using at_.welcome j job

theorem At.admitted (at_ : s.At .free) (entering : s.callers i = .entering call) :
    ∃ stage, (s.admitted i call).At stage := by
  have here := At.entered entering
  cases call with
  | waitIdle => exact ⟨_, at_.answer here⟩
  | flush =>
    cases stored : s.error with
    | none =>
      simp only [AsyncSaver.admitted, stored]
      exact ⟨_, at_.answer here⟩
    | some error =>
      simp only [AsyncSaver.admitted, stored]
      exact ⟨_, at_.fail stored here⟩
  | submit job =>
    cases stored : s.error with
    | none =>
      simp only [AsyncSaver.admitted, stored]
      have connected : s.connected = true := by
        by_contra shut
        exact ((at_.closed (by simpa using shut)).2 i job).1 entering
      exact ⟨_, at_.accept stored connected here⟩
    | some error =>
      simp only [AsyncSaver.admitted, stored]
      exact ⟨_, at_.fail stored here⟩

theorem At.send {job : Job} (at_ : s.At (.claimed i job)) :
    ({ s.answer i (.submit job) (.ok ()) with channel := s.channel ++ [job] }).At (.queued job) where
  busy := by simpa [AsyncSaver.answer, AsyncSaver.move] using at_.busy
  claimed j other := by
    by_cases same : j = i
    · subst same
      simp [AsyncSaver.answer, AsyncSaver.move]
    · have elsewhere : s.callers j ≠ .claimed other := by
        intro claims
        have stage := (at_.claimed j other).mp claims
        simp only [Stage.claimed.injEq] at stage
        exact same stage.1.symm
      simpa [AsyncSaver.answer, AsyncSaver.move, same] using elsewhere
  channel := by simp [at_.channel, Stage.channel]
  running other := by simpa using at_.running other
  ran outcome := by simpa using at_.ran outcome
  served := at_.served
  reported := at_.reported
  clear := at_.clear
  awake j call asleep := by
    by_cases same : j = i
    · subst same
      simp [AsyncSaver.answer, AsyncSaver.move] at asleep
    · exact at_.awake j call (by simpa [AsyncSaver.answer, AsyncSaver.move, same] using asleep)
  closed shut := by
    have idle := (at_.closed shut).1
    rw [at_.busy.mpr nofun] at idle
    contradiction
  exited := at_.exited
  welcome j other := by
    by_cases same : j = i
    · subst same
      simp [AsyncSaver.answer, AsyncSaver.move]
    · simpa [AsyncSaver.answer, AsyncSaver.move, same] using at_.welcome j other

omit [DecidableEq ι] in
theorem At.receive {job : Job} {rest : List Job} (at_ : s.At stage)
    (there : s.channel = job :: rest) :
    ({ s with channel := rest, worker := .running job }).At (.running job) := by
  have channel := at_.channel
  rw [there] at channel
  cases stage with
  | queued queued =>
    simp only [Stage.channel, List.cons.injEq] at channel
    obtain ⟨rfl, rfl⟩ := channel
    have busy := at_.busy.mpr nofun
    refine ⟨by simpa using busy, fun j other => ?_, rfl, by simp, by simp, at_.served, at_.reported,
      at_.clear, fun _ _ _ => .inl busy, at_.closed, by simp, at_.welcome⟩
    simpa using at_.claimed j other
  | free => contradiction
  | claimed => contradiction
  | running => contradiction
  | ran => contradiction

omit [DecidableEq ι] in
theorem At.finish {job : Job} (outcome : Outcome) (at_ : s.At (.running job)) :
    ({ s with worker := .ran outcome, finished := s.finished ++ [(job, outcome)] }).At (.ran outcome) := by
  have busy := at_.busy.mpr nofun
  have served := at_.served
  have reported := at_.reported
  rw [at_.clear busy] at reported
  refine ⟨by simpa using busy, fun j other => ?_, at_.channel, by simp, by simp, ?_, ?_,
    at_.clear, fun _ _ _ => .inl busy, at_.closed, by simp, at_.welcome⟩
  · simpa using at_.claimed j other
  · simpa [Stage.job] using served
  · simp only [failures, Stage.failure, Option.none_or, Option.map_none, Option.toList_none,
      List.append_nil, at_.clear busy, List.filterMap_append] at reported ⊢
    rw [reported]
    cases left : outcome.error <;> simp [left]

omit [DecidableEq ι] in
/-- The worker puts its failure down where no other is, and the saver is free. -/
theorem At.release {outcome : Outcome} (at_ : s.At (.ran outcome)) :
    ({ s with busy := false, error := outcome.error.or s.error, worker := .notifying }).At .free := by
  have none := at_.clear (at_.busy.mpr nofun)
  have reported := at_.reported
  refine ⟨by simp, fun j other => ?_, at_.channel, by simp, by simp, at_.served, ?_, nofun,
    fun _ _ _ => .inr rfl, fun shut => ⟨rfl, (at_.closed shut).2⟩, by simp, at_.welcome⟩
  · simpa using at_.claimed j other
  · simpa [none, Stage.failure, failures] using reported

omit [DecidableEq ι] in
theorem At.notify (at_ : s.At stage) (notifying : s.worker = .notifying) :
    (notifyAll { s with worker := .receiving }).At stage := by
  have place : ∀ j job, woken (s.callers j) = .claimed job ↔ s.callers j = .claimed job := by
    intro j job
    cases s.callers j <;> simp [woken]
  have running : ∀ job, stage ≠ .running job := fun job runs => by
    simpa [notifying] using (at_.running job).mpr runs
  have ran : ∀ outcome, stage ≠ .ran outcome := fun outcome ran => by
    simpa [notifying] using (at_.ran outcome).mpr ran
  refine ⟨at_.busy, fun j job => (place j job).trans (at_.claimed j job), at_.channel,
    by simpa [notifyAll] using running, by simpa [notifyAll] using ran, at_.served, at_.reported, at_.clear,
    fun j call asleep => ?_, fun shut => ⟨(at_.closed shut).1, fun j job => ?_⟩, by simp [notifyAll],
    fun j job => ?_⟩
  · simp only [notifyAll] at asleep
    cases here : s.callers j <;> simp [woken, here] at asleep
  · have closed := (at_.closed shut).2 j job
    simp only [notifyAll]
    cases here : s.callers j <;> simp_all [woken]
  · have welcome := at_.welcome j job
    simp only [notifyAll]
    cases here : s.callers j <;> simp_all [woken]

omit [DecidableEq ι] in
theorem At.exit (at_ : s.At .free) (idle : s.worker = .receiving) (shut : s.connected = false) :
    ({ s with worker := .exited }).At .free := by
  refine ⟨at_.busy, at_.claimed, at_.channel, by simp, by simp, at_.served, at_.reported, at_.clear,
    fun j call asleep => ?_, at_.closed, fun _ => shut, at_.welcome⟩
  rcases at_.awake j call asleep with busy | notifying
  · exact .inl busy
  · rw [idle] at notifying
    contradiction

omit [DecidableEq ι] in
theorem At.close (at_ : s.At stage) (idle : s.busy = false) (outside : ∀ i, s.callers i = .outside) :
    ({ s with connected := false }).At stage := by
  refine ⟨at_.busy, at_.claimed, at_.channel, at_.running, at_.ran, at_.served, at_.reported, at_.clear,
    at_.awake, fun _ => ⟨idle, fun j job => ?_⟩, fun _ => rfl, at_.welcome⟩
  rw [outside j]
  exact ⟨nofun, nofun⟩

theorem At.stepped {event : Event ι Job} (at_ : s.At stage) (allowed : Allowed s event)
    (taken : step s event = some t) : ∃ stage, t.At stage := by
  cases event with
  | call i call =>
    simp only [AsyncSaver.step] at taken
    split at taken
    · rename_i outside
      have here : ∀ job, s.callers i ≠ .claimed job := by simp [outside]
      split at taken
      · split at taken
        · rename_i connected
          obtain rfl := Option.some.inj taken
          exact ⟨_, at_.move _ here nofun nofun nofun fun shut => by simp [connected] at shut⟩
        · obtain rfl := Option.some.inj taken
          exact ⟨_, at_.answer here⟩
      · rename_i other
        obtain rfl := Option.some.inj taken
        refine ⟨_, at_.move _ here nofun nofun nofun fun _ job => ⟨fun same => ?_, nofun⟩⟩
        simp only [Caller.entering.injEq] at same
        exact other job same
    · contradiction
  | lock i =>
    simp only [AsyncSaver.step] at taken
    split at taken
    · rename_i call entering
      split at taken
      · rename_i busy
        obtain rfl := Option.some.inj taken
        refine ⟨_, at_.move _ (At.entered entering) nofun nofun (fun _ _ => busy) fun shut => ?_⟩
        simp [(at_.closed shut).1] at busy
      · rename_i idle
        obtain rfl := Option.some.inj taken
        obtain rfl := at_.free (by simpa using idle)
        exact at_.admitted entering
    · contradiction
  | wake i =>
    simp only [AsyncSaver.step] at taken
    split at taken
    · rename_i call asleep
      obtain rfl := Option.some.inj taken
      refine ⟨_, at_.move _ (by simp [asleep]) nofun nofun nofun fun shut job => ⟨fun same => ?_, nofun⟩⟩
      simp only [Caller.entering.injEq] at same
      exact ((at_.closed shut).2 i job).2 (same ▸ asleep)
    · contradiction
  | send i =>
    simp only [AsyncSaver.step] at taken
    split at taken
    · rename_i job claims
      obtain rfl := (at_.claimed i job).mp claims
      split at taken
      · rename_i exited
        have idle := (at_.closed (at_.exited exited)).1
        rw [at_.busy.mpr nofun] at idle
        contradiction
      · obtain rfl := Option.some.inj taken
        exact ⟨_, at_.send⟩
    · contradiction
  | hangUp i =>
    simp only [AsyncSaver.step] at taken
    split at taken
    · rename_i job refused
      exact absurd refused (at_.welcome i job)
    · contradiction
  | receive =>
    simp only [AsyncSaver.step] at taken
    split at taken
    · rename_i idle
      split at taken
      · rename_i job rest there
        obtain rfl := Option.some.inj taken
        exact ⟨_, at_.receive there⟩
      · split at taken
        · contradiction
        · rename_i shut
          obtain rfl := Option.some.inj taken
          have shut : s.connected = false := by simpa using shut
          obtain rfl := at_.free (at_.closed shut).1
          exact ⟨_, at_.exit idle shut⟩
    · contradiction
  | finish outcome =>
    simp only [AsyncSaver.step] at taken
    split at taken
    · rename_i job runs
      obtain rfl := Option.some.inj taken
      obtain rfl := (at_.running job).mp runs
      exact ⟨_, at_.finish outcome⟩
    · contradiction
  | release =>
    simp only [AsyncSaver.step] at taken
    split at taken
    · rename_i outcome ran
      obtain rfl := Option.some.inj taken
      obtain rfl := (at_.ran outcome).mp ran
      exact ⟨_, at_.release⟩
    · contradiction
  | notify =>
    simp only [AsyncSaver.step] at taken
    split at taken
    · rename_i notifying
      obtain rfl := Option.some.inj taken
      exact ⟨_, at_.notify notifying⟩
    · contradiction
  | close =>
    simp only [AsyncSaver.step] at taken
    split at taken
    · contradiction
    · rename_i idle
      obtain rfl := Option.some.inj taken
      exact ⟨_, at_.close (by simpa using idle) allowed⟩

/-- Wherever a run leads, the save is at one stage. -/
theorem reaches_at (run : Reaches step Allowed new s) : ∃ stage, s.At stage := by
  refine run.invariant (fun s => ∃ stage, s.At stage) ⟨_, at_new⟩ ?_
  rintro t event u ⟨stage, at_⟩ allowed taken
  exact at_.stepped allowed taken

/-- Steps the worker takes, and the caller whose save was accepted. -/
def Event.internal : Event ι Job → Bool
  | .send _ | .receive | .finish _ | .release | .notify => true
  | _ => false

/-- Every save that was accepted has ended, and nobody is left waiting. -/
structure Settled (s : AsyncSaver ι Job) : Prop where
  idle : s.busy = false
  served : s.accepted = s.finished.map (·.1)
  awake : ∀ i call, s.callers i ≠ .asleep call

/-- Within `n` steps of the worker and of the caller whose save was accepted, nothing
is left to do, if the job ends as `outcome` says. -/
def Drains (outcome : Outcome) (n : Nat) (s : AsyncSaver ι Job) : Prop :=
  ∃ events, events.length ≤ n ∧ (∀ e ∈ events, e.internal = true ∧ ∀ o, e = .finish o → o = outcome) ∧
    ∃ t, run step (fun _ _ => true) s events = some t ∧ t.accepted = s.accepted ∧ t.Settled

section
variable {outcome : Outcome} {n : Nat}

theorem Drains.cons {event : Event ι Job} (drains : t.Drains outcome n) (taken : step s event = some t)
    (same : t.accepted = s.accepted) (internal : event.internal = true)
    (as : ∀ o, event = .finish o → o = outcome) : s.Drains outcome (n + 1) := by
  obtain ⟨events, short, all, final, ran, kept, settled⟩ := drains
  refine ⟨event :: events, by simpa using short, fun e there => ?_, final, ?_, kept.trans same, settled⟩
  · rcases List.mem_cons.mp there with rfl | later
    · exact ⟨internal, as⟩
    · exact all e later
  · simp [run, taken, ran]

theorem Drains.mono {m : Nat} (drains : s.Drains outcome n) (le : n ≤ m) : s.Drains outcome m := by
  obtain ⟨events, short, rest⟩ := drains
  exact ⟨events, Nat.le_trans short le, rest⟩

theorem At.drains_free (at_ : s.At .free) : s.Drains outcome 1 := by
  have idle : s.busy = false := by
    cases busy : s.busy with
    | false => rfl
    | true => exact absurd rfl (at_.busy.mp busy)
  have served : s.accepted = s.finished.map (·.1) := by simpa [Stage.job] using at_.served
  by_cases notifying : s.worker = .notifying
  · have taken : step s .notify = some (notifyAll { s with worker := .receiving }) := by
      simp [AsyncSaver.step, notifying]
    refine Drains.cons ?_ taken rfl rfl nofun
    refine ⟨[], Nat.le_refl 0, by simp, _, rfl, rfl, idle, served, fun j call asleep => ?_⟩
    simp only [notifyAll] at asleep
    cases here : s.callers j <;> simp [woken, here] at asleep
  · refine ⟨[], by simp, by simp, s, rfl, rfl, idle, served, fun j call asleep => ?_⟩
    rcases at_.awake j call asleep with busy | told
    · simp [idle] at busy
    · exact notifying told

theorem At.drains_ran {ended : Outcome} (at_ : s.At (.ran ended)) : s.Drains outcome 2 := by
  have taken : step s .release = some { s with
      busy := false, error := ended.error.or s.error, worker := .notifying } := by
    simp [AsyncSaver.step, (at_.ran ended).mpr rfl]
  exact at_.release.drains_free.cons taken rfl rfl nofun

theorem At.drains_running {job : Job} (at_ : s.At (.running job)) : s.Drains outcome 3 := by
  have taken : step s (.finish outcome) = some { s with
      worker := .ran outcome, finished := s.finished ++ [(job, outcome)] } := by
    simp [AsyncSaver.step, (at_.running job).mpr rfl]
  exact (at_.finish outcome).drains_ran.cons taken rfl rfl (by simp)

theorem At.drains_queued {job : Job} (at_ : s.At (.queued job)) : s.Drains outcome 5 := by
  have there : s.channel = [job] := at_.channel
  cases place : s.worker with
  | receiving =>
    have taken : step s .receive = some { s with channel := [], worker := .running job } := by
      simp [AsyncSaver.step, place, there]
    exact ((at_.receive there).drains_running.cons taken rfl rfl nofun).mono (by omega)
  | notifying =>
    have told : step s .notify = some (notifyAll { s with worker := .receiving }) := by
      simp [AsyncSaver.step, place]
    have taken : step (notifyAll { s with worker := .receiving }) .receive =
        some { notifyAll { s with worker := .receiving } with channel := [], worker := .running job } := by
      simp [AsyncSaver.step, notifyAll, there]
    have received := At.receive (at_.notify place) there
    exact (received.drains_running.cons taken rfl rfl nofun).cons told rfl rfl nofun
  | running other => exact nomatch (at_.running other).mp place
  | ran ended => exact nomatch (at_.ran ended).mp place
  | exited =>
    have idle := (at_.closed (at_.exited place)).1
    rw [at_.busy.mpr nofun] at idle
    contradiction

theorem At.drains (at_ : s.At stage) : s.Drains outcome 6 := by
  cases stage with
  | free => exact at_.drains_free.mono (by omega)
  | ran ended => exact at_.drains_ran.mono (by omega)
  | running job => exact at_.drains_running.mono (by omega)
  | queued job => exact at_.drains_queued.mono (by omega)
  | claimed i job =>
    have connected : s.worker ≠ .exited := by
      intro gone
      have idle := (at_.closed (at_.exited gone)).1
      rw [at_.busy.mpr nofun] at idle
      contradiction
    have taken : step s (.send i) = some { s.answer i (.submit job) (.ok ()) with
        channel := s.channel ++ [job] } := by
      simp only [AsyncSaver.step, (at_.claimed i job).mpr rfl]
    exact at_.send.drains_queued.cons taken rfl rfl nofun

end

/-- The caller is handed the failure that was stored, and the slot is empty again. -/
def Reports (s t : AsyncSaver ι Job) (event : Event ι Job) : Prop :=
  ∃ i call error, event = .lock i ∧ s.callers i = .entering call ∧ call ≠ .waitIdle ∧ s.busy = false ∧
    s.error = some error ∧ t.error = none ∧ t.reports = s.reports ++ [(i, report error)] ∧
    t.answers = s.answers ++ [⟨i, call, .error (report error)⟩]

theorem admitted_reports (idle : s.busy = false) (entering : s.callers i = .entering call) :
    (s.admitted i call).reports = s.reports ∧ (call = .waitIdle ∨ s.error = none) ∨
      Reports s (s.admitted i call) (.lock i) := by
  cases call with
  | waitIdle => exact .inl ⟨rfl, .inl rfl⟩
  | flush =>
    cases stored : s.error with
    | none => exact .inl ⟨by simp [AsyncSaver.admitted, stored], .inr rfl⟩
    | some error =>
      refine .inr ⟨i, .flush, error, rfl, entering, nofun, idle, stored, ?_⟩
      simp [AsyncSaver.admitted, stored, AsyncSaver.fail]
  | submit job =>
    cases stored : s.error with
    | none => exact .inl ⟨by simp [AsyncSaver.admitted, stored], .inr rfl⟩
    | some error =>
      refine .inr ⟨i, .submit job, error, rfl, entering, nofun, idle, stored, ?_⟩
      simp [AsyncSaver.admitted, stored, AsyncSaver.fail]

/-- Reports are only made so, and so is the failure taken by the first submit or flush
that finds no save in flight. -/
theorem step_reports {event : Event ι Job} (taken : step s event = some t) :
    (t.reports = s.reports ∨ Reports s t event) ∧
      ∀ i call, event = .lock i → s.callers i = .entering call → call ≠ .waitIdle → s.busy = false →
        s.error ≠ none → Reports s t event := by
  cases event with
  | lock i =>
    simp only [AsyncSaver.step] at taken
    split at taken
    · rename_i call entering
      split at taken
      · rename_i busy
        obtain rfl := Option.some.inj taken
        refine ⟨.inl rfl, fun j other same _ _ idle => ?_⟩
        rw [busy] at idle
        contradiction
      · rename_i idle
        obtain rfl := Option.some.inj taken
        rcases admitted_reports (by simpa using idle) entering with ⟨same, nothing⟩ | reports
        · refine ⟨.inl same, fun j other here there reporting _ stored => ?_⟩
          obtain rfl : i = j := by simpa using here
          obtain rfl : call = other := by simpa [entering] using there
          exact absurd nothing (not_or.mpr ⟨reporting, stored⟩)
        · exact ⟨.inr reports, fun _ _ _ _ _ _ _ => reports⟩
    · contradiction
  | call i call =>
    refine ⟨.inl ?_, nofun⟩
    simp only [AsyncSaver.step] at taken
    repeat' split at taken
    all_goals first | contradiction | (obtain rfl := Option.some.inj taken; rfl)
  | wake i =>
    refine ⟨.inl ?_, nofun⟩
    simp only [AsyncSaver.step] at taken
    split at taken
    · obtain rfl := Option.some.inj taken
      rfl
    · contradiction
  | send i =>
    refine ⟨.inl ?_, nofun⟩
    simp only [AsyncSaver.step] at taken
    repeat' split at taken
    all_goals first | contradiction | (obtain rfl := Option.some.inj taken; rfl)
  | hangUp i =>
    refine ⟨.inl ?_, nofun⟩
    simp only [AsyncSaver.step] at taken
    split at taken
    · obtain rfl := Option.some.inj taken
      rfl
    · contradiction
  | receive =>
    refine ⟨.inl ?_, nofun⟩
    simp only [AsyncSaver.step] at taken
    repeat' split at taken
    all_goals first | contradiction | (obtain rfl := Option.some.inj taken; rfl)
  | finish outcome =>
    refine ⟨.inl ?_, nofun⟩
    simp only [AsyncSaver.step] at taken
    split at taken
    · obtain rfl := Option.some.inj taken
      rfl
    · contradiction
  | release =>
    refine ⟨.inl ?_, nofun⟩
    simp only [AsyncSaver.step] at taken
    split at taken
    · obtain rfl := Option.some.inj taken
      rfl
    · contradiction
  | notify =>
    refine ⟨.inl ?_, nofun⟩
    simp only [AsyncSaver.step] at taken
    split at taken
    · obtain rfl := Option.some.inj taken
      rfl
    · contradiction
  | close =>
    refine ⟨.inl ?_, nofun⟩
    simp only [AsyncSaver.step] at taken
    split at taken
    · contradiction
    · obtain rfl := Option.some.inj taken
      rfl

/-- What holds of a saver however its callers and its worker take turns. One save at
most is accepted and not ended, and it ends whatever the callers do; the failures are
the reports made so far, in order, and the one still stored, which the next submit or
flush takes; a flush that comes back well left none behind. -/
theorem saver_protocol (run : Reaches step Allowed (new : AsyncSaver ι Job) s) :
    (∃ outstanding, s.accepted = s.finished.map (·.1) ++ outstanding ∧ outstanding.length ≤ 1 ∧
      (s.busy = false → outstanding = [])) ∧
    (s.busy = false → s.channel = [] ∧ (∀ job, s.worker ≠ .running job) ∧
      ∀ i job, s.callers i ≠ .claimed job) ∧
    (∀ outcome, s.Drains outcome 6) ∧
    (∃ pending : Option String, s.failures = s.reports.map (·.2) ++ (pending.map report).toList ∧
      ((∀ outcome, s.worker ≠ .ran outcome) → pending = s.error)) ∧
    (∀ outcome, s.worker = .ran outcome → s.error = none) ∧
    (∀ event t, step s event = some t → (t.reports = s.reports ∨ Reports s t event) ∧
      ∀ i call, event = .lock i → s.callers i = .entering call → call ≠ .waitIdle → s.busy = false →
        s.error ≠ none → Reports s t event) ∧
    ∀ i t, s.callers i = .entering .flush → step s (.lock i) = some t →
      t.answers = s.answers ++ [⟨i, .flush, .ok ()⟩] →
      t.accepted = t.finished.map (·.1) ∧ t.failures = t.reports.map (·.2) := by
  obtain ⟨stage, at_⟩ := reaches_at run
  refine ⟨⟨stage.job, at_.served, ?_, fun idle => ?_⟩, fun idle => ?_, fun outcome => at_.drains,
    ⟨s.error.or stage.failure, at_.reported, fun unfinished => ?_⟩, fun outcome ran => ?_,
    fun _ _ => step_reports, fun i t entering taken answered => ?_⟩
  · cases stage <;> simp [Stage.job]
  · rw [at_.free idle]
    rfl
  · obtain rfl := at_.free idle
    exact ⟨at_.channel, fun job runs => (nomatch (at_.running job).mp runs),
      fun i job claims => (nomatch (at_.claimed i job).mp claims)⟩
  · cases stage with
    | ran outcome => exact absurd ((at_.ran outcome).mpr rfl) (unfinished outcome)
    | free => simp [Stage.failure]
    | claimed => simp [Stage.failure]
    | queued => simp [Stage.failure]
    | running => simp [Stage.failure]
  · obtain rfl := (at_.ran outcome).mp ran
    exact at_.clear (at_.busy.mpr nofun)
  · simp only [AsyncSaver.step, entering] at taken
    split at taken
    · obtain rfl := Option.some.inj taken
      simp [AsyncSaver.move] at answered
    · rename_i idle
      obtain rfl := at_.free (by simpa using idle)
      obtain rfl := Option.some.inj taken
      cases stored : s.error with
      | none =>
        simp only [AsyncSaver.admitted, stored]
        have reported := at_.reported
        exact ⟨by simpa [Stage.job] using at_.served, by
          simpa [stored, Stage.failure, failures] using reported⟩
      | some error => simp [AsyncSaver.admitted, stored, AsyncSaver.fail] at answered

/-- One save fails, and a flush from another thread comes back with the failure. -/
def failing : List (Event Bool Nat) :=
  [.call false (.submit 1), .lock false, .send false, .receive, .call true .flush, .lock true,
    .finish (.failed "no space left"), .release, .notify, .lock true]

def failed : Option (AsyncSaver Bool Nat) := run step (fun _ event => decide (event ≠ .close)) new failing

/-- The failure of the one save, reported to the one who asked. -/
theorem saver_protocol_failing :
    ∃ s, failed = some s ∧ s.finished = [(1, .failed "no space left")] ∧
      s.reports = [(true, report "no space left")] ∧
      (∃ outstanding, s.accepted = s.finished.map (·.1) ++ outstanding ∧ outstanding.length ≤ 1 ∧
        (s.busy = false → outstanding = [])) ∧
      ∃ pending : Option String, s.failures = s.reports.map (·.2) ++ (pending.map report).toList ∧
        ((∀ outcome, s.worker ≠ .ran outcome) → pending = s.error) := by
  have ran : failed.map (fun s => (s.finished, s.reports)) =
      some ([(1, .failed "no space left")], [(true, report "no space left")]) := by
    decide +kernel
  obtain ⟨s, reached, left⟩ := Option.map_eq_some_iff.mp ran
  obtain ⟨finished, reports⟩ := Prod.mk.inj left
  have reach : Reaches step Allowed new s := by
    refine reaches_of_run .refl (fun t event permitted => ?_) reached
    cases event with
    | close => simp at permitted
    | call => trivial
    | lock => trivial
    | wake => trivial
    | send => trivial
    | hangUp => trivial
    | receive => trivial
    | finish => trivial
    | release => trivial
    | notify => trivial
  obtain ⟨served, _, _, reported, _⟩ := saver_protocol reach
  exact ⟨s, reached, finished, reports, served, reported⟩

end AsyncSaver
end Moonclip
