import Moonclip.JsonText
import Moonclip.Processes
import Moonclip.RetentionRuns
import Moonclip.Library.Steps

/-! Pins set from several processes at once. A call reads `pins.json`, changes its
copy and writes the whole of it back; the lock it holds is its own process's. -/
namespace Moonclip
open Library.Effect Library.Files Library.Steps

theorem ManifestIo.persist_snapshots [SerdeJson] {w after : World} (ran : persist w = .ok () after) :
    after.manifest.snapshots = w.manifest.snapshots := by
  obtain ⟨_, same⟩ := (persist_recorded.ok (Recorded.refl w) ran).manifest
  rw [same]

namespace Coordinator
variable [SerdeJson]

/-- The first part of `setPinned`: flag the newest snapshot at `step`, if there is one. -/
def flagPinned (step : Nat) (pinned : Bool) : Act Bool := do
  let m := (← get).manifest
  match m.snapshots.reverse.find? fun s => s.step == step && s.finalized with
  | none => return false
  | some target =>
    let flagged := m.snapshots.map fun s => if s.id = target.id then { s with pinned := pinned } else s
    modify fun w => { w with manifest := { w.manifest with snapshots := flagged } }
    if m.snapshots.any fun s => s.id == target.id && s.pinned != pinned then ManifestIo.persist
    return true

/-- The second part: the record with the step added or taken out. -/
def pinsWith (files : Files) (m : Manifest) (step : Nat) (pinned : Bool) :
    Except MoonclipError (List Nat) := do
  let recorded ← readPins files
  let steps := recorded.getD ((m.snapshots.filter fun s => s.pinned && s.finalized).map (·.step))
  let steps := steps.filter (· != step) ++ (if pinned then [step] else [])
  return (steps.insertionSort (· ≤ ·)).dedup

variable {step : Nat} {pinned found : Bool} {w after : World} {files : Files} {m : Manifest}
  {steps : List Nat}

theorem flagPinned_pins : Triple (fun s => s = w) (flagPinned step pinned)
    (fun _ s => s.disk.files.find? .pinsJson = w.disk.files.find? .pinsJson) fun _ _ => True := by
  refine Triple.get_bind fun w₀ => ?_
  refine Triple.learn (fun _ start => start.2) fun same => ?_
  subst same
  extract_lets m
  split
  · exact Triple.pure fun _ start => start.1 ▸ rfl
  · extract_lets flagged
    refine Triple.bind (fun _ s => s.disk.files.find? .pinsJson = w₀.disk.files.find? .pinsJson)
      (Triple.modified fun _ start => start.1 ▸ rfl) fun _ => ?_
    split
    · refine Triple.bind (fun _ s => s.disk.files.find? .pinsJson = w₀.disk.files.find? .pinsJson)
        (fun s same => ?_) fun _ => Triple.pure fun _ same => same
      have left := ManifestIo.persist_recorded s (ManifestIo.Recorded.refl s)
      cases ran : ManifestIo.persist s with
      | ok u s' =>
        rw [ran] at left
        exact left.pins.trans same
      | error e s' => trivial
    · exact Triple.pure fun _ same => same

/-- The record as the call reads and writes it, its manifest flagged already. -/
theorem record_eq_ok {flagged : List Snapshot} (same : w.manifest.snapshots = flagged) :
    (do
      let recorded ← returning (readPins (← get).disk.files)
      let steps := recorded.getD ((flagged.filter fun s => s.pinned && s.finalized).map (·.step))
      let steps := steps.filter (· != step) ++ (if pinned then [step] else [])
      writePins (steps.insertionSort (· ≤ ·)).dedup
      return true : Act Bool) w = .ok found after ↔ found = true ∧ ∃ steps,
    pinsWith w.disk.files w.manifest step pinned = .ok steps ∧ writePins steps w = .ok () after := by
  subst same
  simp only [Library.Effect.bind_eq_ok, get_eq_ok, returning_eq_ok, Library.Effect.pure_eq_ok, pinsWith,
    Library.Outcome.bind_eq_ok, Library.Outcome.pure_eq_ok]
  constructor
  · rintro ⟨_, _, ⟨rfl, rfl⟩, recorded, _, ⟨read, rfl⟩, _, _, wrote, rfl, rfl⟩
    exact ⟨rfl, _, ⟨recorded, read, rfl⟩, wrote⟩
  · rintro ⟨rfl, _, ⟨recorded, read, rfl⟩, wrote⟩
    exact ⟨_, _, ⟨rfl, rfl⟩, recorded, _, ⟨read, rfl⟩, _, _, wrote, rfl, rfl⟩

theorem flag_record_eq_ok {flagged : List Snapshot} {changed : Bool} {flag : World → World}
    (flags : ∀ w, (flag w).manifest.snapshots = flagged) :
    (do
      modify flag
      if changed then ManifestIo.persist
      let recorded ← returning (readPins (← get).disk.files)
      let steps := recorded.getD ((flagged.filter fun s => s.pinned && s.finalized).map (·.step))
      let steps := steps.filter (· != step) ++ (if pinned then [step] else [])
      writePins (steps.insertionSort (· ≤ ·)).dedup
      return true : Act Bool) w = .ok true after ↔ ∃ mid steps,
    (do
      modify flag
      if changed then ManifestIo.persist
      return true : Act Bool) w = .ok true mid ∧
      pinsWith mid.disk.files mid.manifest step pinned = .ok steps ∧ writePins steps mid = .ok () after := by
  rw [Library.Effect.bind_eq_ok]
  simp only [modify_eq_ok, @Library.Effect.bind_eq_ok _ _ _ _ _ _ _ (modify flag)]
  cases changed with
  | true =>
    constructor
    · rintro ⟨_, _, rfl, ran⟩
      obtain ⟨u, mid, persisted, ran⟩ := Library.Effect.bind_eq_ok.mp ran
      have same := (ManifestIo.persist_snapshots persisted).trans (flags w)
      obtain ⟨_, steps, record⟩ := (record_eq_ok same).mp ran
      exact ⟨mid, steps, ⟨⟨⟩, _, rfl, Library.Effect.bind_eq_ok.mpr ⟨u, mid, persisted, rfl⟩⟩, record⟩
    · rintro ⟨mid, steps, ⟨_, _, rfl, ran⟩, record⟩
      obtain ⟨u, _, persisted, done⟩ := Library.Effect.bind_eq_ok.mp ran
      obtain ⟨_, rfl⟩ := Library.Effect.pure_eq_ok.mp done
      have same := (ManifestIo.persist_snapshots persisted).trans (flags w)
      exact ⟨⟨⟩, _, rfl, Library.Effect.bind_eq_ok.mpr ⟨u, _, persisted,
        (record_eq_ok same).mpr ⟨rfl, steps, record⟩⟩⟩
  | false =>
    constructor
    · rintro ⟨_, _, rfl, ran⟩
      obtain ⟨_, steps, record⟩ := (record_eq_ok (flags w)).mp ran
      exact ⟨_, steps, ⟨⟨⟩, _, rfl, rfl⟩, record⟩
    · rintro ⟨mid, steps, ⟨_, _, rfl, ran⟩, record⟩
      obtain ⟨_, rfl⟩ := Library.Effect.pure_eq_ok.mp ran
      exact ⟨⟨⟩, _, rfl, (record_eq_ok (flags w)).mpr ⟨rfl, steps, record⟩⟩

/-- The two parts, one after the other, are the call. -/
theorem setPinned_eq_ok : setPinned step pinned w = .ok true after ↔ ∃ mid steps,
    flagPinned step pinned w = .ok true mid ∧
      pinsWith mid.disk.files mid.manifest step pinned = .ok steps ∧ writePins steps mid = .ok () after := by
  simp only [setPinned, flagPinned, get_bind_apply]
  cases w.manifest.snapshots.reverse.find? fun s => s.step == step && s.finalized with
  | none => simp [Library.Effect.pure_eq_ok]
  | some target => exact flag_record_eq_ok fun _ => rfl

end Coordinator

/-- Where a process is in a `setPinned` call; it holds its manifest lock throughout. -/
inductive PinCall where
  | idle
  | flagged (step : Nat) (pinned : Bool)
  | read (step : Nat) (pinned : Bool) (steps : List Nat)
deriving DecidableEq

def PinCall.hasRead : PinCall → Bool
  | .read _ _ _ => true
  | _ => false

/-- Processes that set pins, and the calls that found their step and returned, the
latest first. -/
structure Pinning (ι : Type) extends Processes ι where
  call : ι → PinCall
  log : List (Nat × Bool)

/-- What a process may do next. `other` is whatever it does besides: its saves and
merges write no pins, and leave its manifest to a call that holds the lock. -/
inductive PinEvent (ι : Type) where
  | flag (i : ι) (step : Nat) (pinned : Bool)
  | read (i : ι)
  | write (i : ι)
  | other (i : ι) (w : World)

namespace Pinning
variable {ι : Type} [DecidableEq ι] [SerdeJson]

def step (s : Pinning ι) : PinEvent ι → Option (Pinning ι)
  | .flag i step pinned =>
    if s.call i = .idle then
      match Coordinator.flagPinned step pinned (s.world i) with
      | .ok true w => some { s with
          toProcesses := s.after i w, call := Function.update s.call i (.flagged step pinned) }
      | .ok false w => some { s with toProcesses := s.after i w }
      | .error _ _ => none
    else none
  | .read i =>
    match s.call i with
    | .flagged step pinned =>
      match Coordinator.pinsWith s.disk.files (s.memory i).manifest step pinned with
      | .ok steps => some { s with call := Function.update s.call i (.read step pinned steps) }
      | .error _ => none
    | _ => none
  | .write i =>
    match s.call i with
    | .read step pinned steps =>
      match Coordinator.writePins steps (s.world i) with
      | .ok _ w => some { s with
          toProcesses := s.after i w
          call := Function.update s.call i .idle
          log := (step, pinned) :: s.log }
      | .error _ _ => none
    | _ => none
  | .other i w =>
    if w.disk.files.find? .pinsJson = s.disk.files.find? .pinsJson ∧
        (s.call i = .idle ∨ w.manifest = (s.memory i).manifest) then
      some { s with toProcesses := s.after i w }
    else none

/-- The record is read only while no other call has read it and not yet written. -/
def Apart (s : Pinning ι) : PinEvent ι → Prop
  | .read _ => ∀ j, (s.call j).hasRead = false
  | _ => True

/-- Steps as the last calls about them left them. -/
def Agrees (log : List (Nat × Bool)) (steps : List Nat) : Prop :=
  ∀ step pinned, log.lookup step = some pinned → (step ∈ steps ↔ pinned = true)

omit [DecidableEq ι] in
theorem Agrees.pinsWith {log : List (Nat × Bool)} {files : Files} {m : Manifest} {step : Nat}
    {pinned : Bool} {steps : List Nat}
    (agrees : ∀ recorded, Coordinator.readPins files = .ok recorded → log = [] ∨
      ∃ steps, recorded = some steps ∧ Agrees log steps)
    (ran : Coordinator.pinsWith files m step pinned = .ok steps) :
    Agrees ((step, pinned) :: log) steps := by
  simp only [Coordinator.pinsWith, Library.Outcome.bind_eq_ok, Library.Outcome.pure_eq_ok] at ran
  obtain ⟨recorded, read, rfl⟩ := ran
  intro other flag last
  simp only [List.mem_dedup, List.mem_insertionSort, List.mem_append, List.mem_filter, bne_iff_ne]
  by_cases same : other = step
  · subst same
    obtain rfl : pinned = flag := by simpa using last
    cases pinned <;> simp
  · have apart : (other == step) = false := beq_eq_false_iff_ne.mpr same
    rw [List.lookup_cons, apart] at last
    have unnamed : ¬other ∈ if pinned = true then [step] else [] := by
      split <;> simp [same]
    rcases agrees recorded read with rfl | ⟨steps, rfl, agrees⟩
    · simp at last
    · simpa [same, unnamed] using agrees other flag last

/-- What holds of the record and of every call that is about to write it. -/
structure Orderly (s : Pinning ι) : Prop where
  recorded : s.log = [] ∨
    ∃ steps, Coordinator.readPins s.disk.files = .ok (some steps) ∧ Agrees s.log steps
  writing : ∀ i step pinned steps, s.call i = .read step pinned steps →
    Agrees ((step, pinned) :: s.log) steps
  alone : ∀ i j, (s.call i).hasRead = true → (s.call j).hasRead = true → i = j

theorem readPins_congr {files files' : Files} (same : files'.find? .pinsJson = files.find? .pinsJson) :
    Coordinator.readPins files' = Coordinator.readPins files := by
  simp only [Coordinator.readPins, same]

/-- What is written is what is read next. -/
theorem readPins_writePins [LawfulSerdeJson] {steps : List Nat} {w after : World}
    (wrote : Coordinator.writePins steps w = .ok () after) :
    Coordinator.readPins after.disk.files = .ok (some steps) := by
  simp only [Coordinator.writePins, Library.Effect.bind_eq_ok, returning_eq_ok,
    Library.Outcome.mapError_eq_ok] at wrote
  obtain ⟨text, _, ⟨encoded, rfl⟩, put⟩ := wrote
  unfold Storage.put at put
  simp only at put
  split at put
  · obtain ⟨_, rfl⟩ := EStateM.Result.ok.inj put
    have closed := LawfulSerdeJson.pins.closed encoded
    have back := LawfulSerdeJson.pins.roundTrip encoded
    simp [Coordinator.readPins, Change.apply, Library.Codec.trimZeros_pad closed, back, Except.mapError]
  · contradiction

variable {s t : Pinning ι} {event : PinEvent ι}

omit [DecidableEq ι] in
theorem Orderly.other {ps : Processes ι} (orderly : s.Orderly)
    (same : ps.disk.files.find? .pinsJson = s.disk.files.find? .pinsJson) :
    Orderly { s with toProcesses := ps } where
  recorded := orderly.recorded.imp_right fun ⟨steps, read, agrees⟩ =>
    ⟨steps, (readPins_congr same).trans read, agrees⟩
  writing := orderly.writing
  alone := orderly.alone

/-- A call that has read nothing yet has nothing to disturb. -/
theorem Orderly.recall {i : ι} {call : PinCall} (orderly : s.Orderly) (unread : call.hasRead = false) :
    Orderly { s with call := Function.update s.call i call } where
  recorded := orderly.recorded
  writing j step pinned steps reading := by
    by_cases same : j = i
    · subst same
      have reading : call = .read step pinned steps := by simpa using reading
      simp [reading, PinCall.hasRead] at unread
    · exact orderly.writing j step pinned steps (by simpa [same] using reading)
  alone j k one two := by
    have apart : ∀ l, (Function.update s.call i call l).hasRead = true → l ≠ i := by
      rintro l reading rfl
      simp [unread] at reading
    have first := apart j one
    have second := apart k two
    exact orderly.alone j k (by simpa [first] using one) (by simpa [second] using two)

theorem Orderly.step [LawfulSerdeJson] (orderly : s.Orderly) (apart : s.Apart event)
    (taken : s.step event = some t) : t.Orderly := by
  cases event with
  | flag i step pinned =>
    simp only [Pinning.step] at taken
    split at taken
    · have kept := @Coordinator.flagPinned_pins _ step pinned (s.world i) (s.world i) rfl
      split at taken
      · rename_i w ran
        obtain rfl := Option.some.inj taken
        rw [ran] at kept
        have moved : Orderly { s with toProcesses := s.after i w } := orderly.other kept
        exact moved.recall rfl
      · rename_i w ran
        obtain rfl := Option.some.inj taken
        rw [ran] at kept
        exact orderly.other kept
      · contradiction
    · contradiction
  | read i =>
    simp only [Pinning.step] at taken
    split at taken
    · rename_i step pinned called
      split at taken
      · rename_i steps made
        obtain rfl := Option.some.inj taken
        have fresh : Agrees ((step, pinned) :: s.log) steps := by
          refine Agrees.pinsWith (fun recorded read => ?_) made
          rcases orderly.recorded with none | ⟨kept, found, agrees⟩
          · exact .inl none
          · obtain rfl : some kept = recorded := by simpa [found] using read
            exact .inr ⟨kept, rfl, agrees⟩
        refine ⟨orderly.recorded, fun j step' pinned' steps' reading => ?_, fun j k one two => ?_⟩
        · by_cases same : j = i
          · subst same
            obtain ⟨rfl, rfl, rfl⟩ : step = step' ∧ pinned = pinned' ∧ steps = steps' := by
              simpa using reading
            exact fresh
          · exact orderly.writing j step' pinned' steps' (by simpa [same] using reading)
        · have own : ∀ l, (Function.update s.call i (.read step pinned steps) l).hasRead = true → l = i := by
            intro l reading
            by_contra other
            have before := apart l
            simp [other, before] at reading
          rw [own j one, own k two]
      · contradiction
    · contradiction
  | write i =>
    simp only [Pinning.step] at taken
    split at taken
    · rename_i step pinned steps called
      split at taken
      · rename_i u w wrote
        obtain rfl := Option.some.inj taken
        have reading : (s.call i).hasRead = true := by rw [called]; rfl
        have idle : ∀ j, (Function.update s.call i .idle j).hasRead = false := by
          intro j
          by_cases same : j = i
          · subst same
            simp [PinCall.hasRead]
          · have quiet : (s.call j).hasRead ≠ true := fun also => same (orderly.alone j i also reading)
            simpa [same] using quiet
        refine ⟨.inr ⟨steps, readPins_writePins wrote, orderly.writing i step pinned steps called⟩,
          fun j step' pinned' steps' also => ?_, fun j k one _ => ?_⟩
        · have := idle j
          simp only at also
          simp [also, PinCall.hasRead] at this
        · have := idle j
          simp [this] at one
      · contradiction
    · contradiction
  | other i w =>
    simp only [Pinning.step] at taken
    split at taken
    · rename_i same
      obtain rfl := Option.some.inj taken
      exact orderly.other same.1
    · contradiction

/-- As long as no call reads between another's read and write, the record holds
what the last calls to return left. -/
theorem pins_kept [LawfulSerdeJson] {start : Pinning ι} (idle : ∀ i, start.call i = .idle)
    (new : start.log = []) (run : Reaches step Apart start s) :
    ∀ step pinned, s.log.lookup step = some pinned →
      ∃ steps, Coordinator.readPins s.disk.files = .ok (some steps) ∧ (step ∈ steps ↔ pinned = true) := by
  have orderly : s.Orderly := by
    refine run.invariant _ ⟨.inl new, fun i step pinned steps reading => ?_, fun i j one _ => ?_⟩
      fun t event u orderly apart taken => orderly.step apart taken
    · simp [idle i] at reading
    · simp [idle i, PinCall.hasRead] at one
  intro step pinned last
  rcases orderly.recorded with none | ⟨steps, read, agrees⟩
  · simp [none] at last
  · exact ⟨steps, read, agrees step pinned last⟩

end Pinning

namespace TwoPins

open Coordinator (emptyFull)

def manifest (one two : Bool) : Manifest :=
  { Manifest.default with snapshots := [emptyFull 1 100 one, emptyFull 2 200 two], ranksWritten := {1, 2} }

abbrev serde : SerdeJson :=
  JsonText.serde (fun _ => [])
    [ManifestIo.indexOf (manifest true false), ManifestIo.indexOf (manifest false true)]
    [] [] [[100], [200], [100, 200]]

/-- A store of two fulls that two processes have open. -/
def opened : Pinning Bool where
  disk := ⟨.empty, [], 0, fun _ _ => true, fun _ => true⟩
  memory _ := ⟨manifest false false, none, .default⟩
  call _ := .idle
  log := []

/-- Each reads before the other has written. -/
def crossed : List (PinEvent Bool) :=
  [.flag false 100 true, .flag true 200 true, .read false, .read true, .write false, .write true]

def inTurn : List (PinEvent Bool) :=
  [.flag false 100 true, .flag true 200 true, .read false, .write false, .read true, .write true]

def apart (s : Pinning Bool) : PinEvent Bool → Bool
  | .read _ => !(s.call false).hasRead && !(s.call true).hasRead
  | _ => true

/-- What is left of a run: the calls under way, the calls returned and the record. -/
def outcome (s : Pinning Bool) : (PinCall × PinCall) × List (Nat × Bool) × Option (Option (List Nat)) :=
  let _ := serde
  ((s.call false, s.call true), s.log, (Coordinator.readPins s.disk.files).toOption)

end TwoPins

/-- Both calls return, and the first one's step is not on record. -/
theorem Pinning.pin_lost : let _ := TwoPins.serde
    ∃ s, run Pinning.step (fun _ _ => true) TwoPins.opened TwoPins.crossed = some s ∧
      (∀ i, s.call i = .idle) ∧ s.log.lookup 100 = some true ∧
      Coordinator.readPins s.disk.files = .ok (some [200]) := by
  intro serde
  have left : (run Pinning.step (fun _ _ => true) TwoPins.opened TwoPins.crossed).map TwoPins.outcome =
      some ((.idle, .idle), [(200, true), (100, true)], some (some [200])) := by
    decide +kernel
  obtain ⟨s, ran, left⟩ := Option.map_eq_some_iff.mp left
  simp only [TwoPins.outcome, Prod.mk.injEq] at left
  obtain ⟨⟨one, two⟩, log, record⟩ := left
  refine ⟨s, ran, fun i => ?_, by rw [log]; rfl, ?_⟩
  · cases i with
    | false => exact one
    | true => exact two
  · exact Library.Outcome.toOption_eq_some.mp record

/-- One call after the other: both steps are on record. -/
theorem Pinning.pins_kept_inTurn : let _ := TwoPins.serde
    ∃ s, run Pinning.step TwoPins.apart TwoPins.opened TwoPins.inTurn = some s ∧
      ∃ steps, Coordinator.readPins s.disk.files = .ok (some steps) ∧ (100 ∈ steps ↔ true = true) := by
  intro serde
  have : LawfulSerdeJson := JsonText.serde_lawful _ (by decide +kernel) (by simp) (by simp)
    (by decide +kernel)
  have left : (run Pinning.step TwoPins.apart TwoPins.opened TwoPins.inTurn).map (·.log) =
      some [(200, true), (100, true)] := by
    decide +kernel
  obtain ⟨s, ran, log⟩ := Option.map_eq_some_iff.mp left
  have run : Reaches Pinning.step Pinning.Apart TwoPins.opened s := by
    refine reaches_of_run .refl (fun t event permitted => ?_) ran
    cases event with
    | read i =>
      intro j
      cases j <;> simp_all [TwoPins.apart]
    | flag i step pinned => trivial
    | write i => trivial
    | other i w => trivial
  exact ⟨s, ran, Pinning.pins_kept (fun _ => rfl) rfl run 100 true (by rw [log]; rfl)⟩

end Moonclip
