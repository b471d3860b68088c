import Moonclip.Basic
import Mathlib.Data.Finset.Basic

/-! Which snapshots are being read, and which a merge has claimed. -/
namespace Moonclip

structure InFlight where
  /-- How many readers are inside each snapshot right now. -/
  pinned : Uuid → Nat
  /-- Snapshots a merge in progress intends to remove. -/
  doomed : Finset Uuid

namespace InFlight
variable {r : InFlight} {ids : List Uuid} {id : Uuid}

def default : InFlight := ⟨fun _ => 0, ∅⟩

def anyPinned (r : InFlight) (ids : List Uuid) : Bool := ids.any fun id => decide (0 < r.pinned id)

/-- Mark `ids` as being read, each as often as it is named. -/
def pin (r : InFlight) (ids : List Uuid) : InFlight :=
  { r with pinned := fun id => r.pinned id + ids.count id }

/-- The guard of a pin is dropped. -/
def unpin (r : InFlight) (ids : List Uuid) : InFlight :=
  { r with pinned := fun id => r.pinned id - ids.count id }

def isDoomed (r : InFlight) (id : Uuid) : Bool := decide (id ∈ r.doomed)

/-- Claim `ids` for a merge, unless somebody is reading one of them. -/
def claim (r : InFlight) (ids : List Uuid) : Option InFlight :=
  if r.anyPinned ids then none else some { r with doomed := r.doomed ∪ ids.toFinset }

/-- The guard of a claim is dropped. -/
def unclaim (r : InFlight) (ids : List Uuid) : InFlight :=
  { r with doomed := r.doomed \ ids.toFinset }

theorem anyPinned_eq_false : r.anyPinned ids = false ↔ ∀ id ∈ ids, r.pinned id = 0 := by
  simp [anyPinned]

@[simp] theorem pinned_pin : (r.pin ids).pinned id = r.pinned id + ids.count id := rfl

@[simp] theorem doomed_pin : (r.pin ids).doomed = r.doomed := rfl

@[simp] theorem pinned_unpin : (r.unpin ids).pinned id = r.pinned id - ids.count id := rfl

@[simp] theorem doomed_unpin : (r.unpin ids).doomed = r.doomed := rfl

@[simp] theorem pinned_unclaim : (r.unclaim ids).pinned = r.pinned := rfl

@[simp] theorem mem_doomed_unclaim : id ∈ (r.unclaim ids).doomed ↔ id ∈ r.doomed ∧ id ∉ ids := by
  simp [unclaim]

/-- A claim succeeds only on what nobody reads, and touches no pin. -/
theorem claim_eq_some {claimed : InFlight} : r.claim ids = some claimed ↔
    (∀ id ∈ ids, r.pinned id = 0) ∧ claimed = { r with doomed := r.doomed ∪ ids.toFinset } := by
  unfold claim
  cases busy : r.anyPinned ids with
  | false => simpa [← anyPinned_eq_false, busy] using eq_comm
  | true => simp [← anyPinned_eq_false, busy]

end InFlight
end Moonclip
