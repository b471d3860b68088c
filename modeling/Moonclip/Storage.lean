import Moonclip.InFlight
import Moonclip.Manifest
import Moonclip.Library.Codec
import Moonclip.Library.Effect
import Moonclip.Library.Files

/-! What a coordinator holds between two calls, and the storage operations its
calls are made of. Each write is atomic, lands padded to a page, and is entered
in a journal; whether the file system takes it is not up to this code. -/
namespace Moonclip
open Library.Codec Library.Effect Library.Files

abbrev Files := FileStore Path Bytes

structure Disk where
  files : Files
  journal : List (Change Path Bytes)
  pageSize : Nat
  accepts : Path → Bytes → Bool
  removes : Path → Bool

abbrev TensorMap := Std.ExtTreeMap String Bytes

/-- The last full snapshot's raw tensor bytes, kept for the next delta. -/
structure RetainedBase where
  snapId : Uuid
  tensors : TensorMap

structure World where
  disk : Disk
  manifest : Manifest
  retainedBase : Option RetainedBase
  inFlight : InFlight

abbrev Act := EStateM MoonclipError World

namespace Disk

def change (disk : Disk) (c : Change Path Bytes) : Disk :=
  { disk with files := c.apply disk.files, journal := disk.journal ++ [c] }

@[simp] theorem files_change {disk : Disk} {c : Change Path Bytes} :
    (disk.change c).files = c.apply disk.files := rfl
@[simp] theorem journal_change {disk : Disk} {c : Change Path Bytes} :
    (disk.change c).journal = disk.journal ++ [c] := rfl
@[simp] theorem pageSize_change {disk : Disk} {c : Change Path Bytes} :
    (disk.change c).pageSize = disk.pageSize := rfl
@[simp] theorem accepts_change {disk : Disk} {c : Change Path Bytes} :
    (disk.change c).accepts = disk.accepts := rfl
@[simp] theorem removes_change {disk : Disk} {c : Change Path Bytes} :
    (disk.change c).removes = disk.removes := rfl

end Disk

namespace Storage

def get (files : Files) (p : Path) : Except MoonclipError Bytes :=
  match files.find? p with
  | some data => .ok data
  | none => .error (.notFound p.text)

/-- `i64::MAX`: no file can be read further on. -/
def maxOffset : Nat := 2 ^ 63 - 1

/-- `isize::MAX`: no buffer has room for more. -/
def maxCapacity : Nat := 2 ^ 63 - 1

/-- Up to `len` bytes starting at `offset`; fewer if the file ends earlier. Room for all
of them is asked for first, and to ask for more than there can be is a panic. What a file
does hold is read: none reaches as far as either bound. -/
def getRange (files : Files) (p : Path) (offset len : Nat) : Except MoonclipError Bytes := do
  let data ← get files p
  if maxOffset < offset ∧ data.length < offset then throw (.io "Invalid argument (os error 22)")
  if maxCapacity < len ∧ data.length < len then throw (.panicked "capacity overflow")
  return (data.drop offset).take len

/-- Every file under `snapshots/`. -/
def listSnapshots (files : Files) : List Path :=
  files.names.filter fun
    | .snapshots _ _ | .loose _ => true
    | _ => false

/-- Every file in the directory of one snapshot. -/
def listSnapshot (files : Files) (id : Uuid) : List Path := files.names.filter (Path.belongsTo id)

def put (p : Path) (data : Bytes) : Act Unit := fun w =>
  let body := pad w.disk.pageSize data
  if w.disk.accepts p body then .ok () { w with disk := w.disk.change (.put p body) }
  else .error (.storage ("Failed to persist " ++ p.text)) w

def putParts (p : Path) (parts : List Bytes) : Act Unit := put p parts.flatten

/-- A deletion nobody checks: of a file that is not there it is nothing, and one
the file system refuses leaves the file. -/
def delete (p : Path) : Act Unit := modify fun w =>
  if (w.disk.files.find? p).isSome && w.disk.removes p then
    { w with disk := w.disk.change (.delete p) }
  else w

section
variable {files files' : Files} {p : Path} {data blob bytes : Bytes} {offset len : Nat}

theorem getRange_congr (same : files'.find? p = files.find? p) :
    getRange files' p offset len = getRange files p offset len := by
  simp only [getRange, get, same]

theorem getRange_absent (absent : files.find? p = none) :
    getRange files p offset len = .error (.notFound p.text) := by
  simp only [getRange, get, absent]
  rfl

/-- Where neither bound is passed, there is nothing to stop a read. -/
theorem getRange_of_le (found : files.find? p = some data) (starts : offset ≤ max maxOffset data.length)
    (fits : len ≤ max maxCapacity data.length) :
    getRange files p offset len = .ok ((data.drop offset).take len) := by
  have seeks : ¬(maxOffset < offset ∧ data.length < offset) := by omega
  have reserves : ¬(maxCapacity < len ∧ data.length < len) := by omega
  simp only [getRange, get, found, bind, Except.bind, if_neg seeks, if_neg reserves]
  rfl

theorem getRange_within (found : files.find? p = some data) (within : offset + len ≤ data.length) :
    getRange files p offset len = .ok ((data.drop offset).take len) :=
  getRange_of_le found (by omega) (by omega)

theorem getRange_lies (found : files.find? p = some data) (lies : Lies data offset blob) :
    getRange files p offset blob.length = .ok blob := by
  rw [getRange_within found lies.within, lies.slice]

theorem getRange_eq_ok (read : getRange files p offset len = .ok bytes) :
    ∃ data, files.find? p = some data ∧ bytes = (data.drop offset).take len := by
  unfold getRange get at read
  cases found : files.find? p with
  | none =>
    rw [found] at read
    contradiction
  | some data =>
    refine ⟨data, rfl, ?_⟩
    simp only [found, bind, Except.bind] at read
    split at read
    · contradiction
    · split at read
      · contradiction
      · exact (Except.ok.inj read).symm

/-- A read panics for the length alone. -/
theorem panics_getRange : panics (getRange files p offset len) = true ↔ ∃ data, files.find? p = some data ∧
    ¬(maxOffset < offset ∧ data.length < offset) ∧ maxCapacity < len ∧ data.length < len := by
  unfold getRange get
  cases found : files.find? p with
  | none => simp [panics, bind, Except.bind]
  | some data =>
    simp only [bind, Except.bind, Option.some.injEq, exists_eq_left']
    by_cases far : maxOffset < offset ∧ data.length < offset
    · simp [far, panics, throw, throwThe, MonadExceptOf.throw]
    · by_cases large : maxCapacity < len ∧ data.length < len
      · simp [far, large, panics, throw, throwThe, MonadExceptOf.throw]
      · simp [far, large, panics, pure, Except.pure]

end

theorem get_eq_ok {files : Files} {p : Path} {data : Bytes} :
    get files p = .ok data ↔ files.find? p = some data := by
  unfold get
  cases files.find? p <;> simp

/-- A write the file system takes changes one file and nothing else; one it refuses
changes nothing. -/
theorem put_either {p : Path} {data : Bytes} {pre : World → Prop} {post : Unit → World → Prop}
    {fail : MoonclipError → World → Prop}
    (written : ∀ w, pre w → w.disk.accepts p (pad w.disk.pageSize data) = true →
      post () { w with disk := w.disk.change (.put p (pad w.disk.pageSize data)) })
    (refused : ∀ w e, pre w → w.disk.accepts p (pad w.disk.pageSize data) = false → fail e w) :
    Triple pre (put p data) post fail := by
  intro w start
  unfold put
  by_cases taken : w.disk.accepts p (pad w.disk.pageSize data) = true
  · simpa only [taken, if_true] using written w start taken
  · simp only [taken]
    exact refused w _ start (by simpa using taken)

theorem put_spec {p : Path} {data : Bytes} {pre : World → Prop} {post : Unit → World → Prop}
    {fail : MoonclipError → World → Prop}
    (written : ∀ w, pre w → w.disk.accepts p (pad w.disk.pageSize data) = true →
      post () { w with disk := w.disk.change (.put p (pad w.disk.pageSize data)) })
    (refused : ∀ w e, pre w → fail e w) : Triple pre (put p data) post fail :=
  put_either written fun w e start _ => refused w e start

/-- The same, run from a state that is known. -/
theorem put_from {p : Path} {data : Bytes} {w : World} {post : Unit → World → Prop}
    {fail : MoonclipError → World → Prop}
    (written : post () { w with disk := w.disk.change (.put p (pad w.disk.pageSize data)) })
    (refused : ∀ e, fail e w) : Triple (fun s => s = w) (put p data) post fail := by
  refine put_spec ?_ ?_
  · rintro s rfl _
    exact written
  · rintro s e rfl
    exact refused e

theorem delete_spec {p : Path} {pre : World → Prop} {post : Unit → World → Prop}
    {fail : MoonclipError → World → Prop} (left : ∀ w, pre w → post () w)
    (deleted : ∀ w, pre w → post () { w with disk := w.disk.change (.delete p) }) :
    Triple pre (delete p) post fail := by
  refine Triple.modified fun w start => ?_
  split
  · exact deleted w start
  · exact left w start

end Storage
end Moonclip
