import Mathlib.Data.List.Basic
import Mathlib.Data.List.Induction

/-! A store of files under keys, the changes made to it one at a time, and what
a run of changes leaves when it is cut short. -/
namespace Library.Files

/-- The files there are, by name. -/
structure FileStore (κ β : Type) where
  names : List κ
  find? : κ → Option β
  nodup : names.Nodup
  mem_names : ∀ {k}, k ∈ names ↔ (find? k).isSome = true

/-- One change, atomic by itself. -/
inductive Change (κ β : Type) where
  | put (key : κ) (value : β)
  | delete (key : κ)
deriving DecidableEq, Repr

variable {κ β : Type}

namespace FileStore

def empty : FileStore κ β := ⟨[], fun _ => none, List.nodup_nil, by simp⟩

theorem ext {s t : FileStore κ β} (names : s.names = t.names) (find? : ∀ k, s.find? k = t.find? k) :
    s = t := by
  obtain ⟨_, found, _, _⟩ := s
  obtain ⟨_, found', _, _⟩ := t
  obtain rfl : found = found' := funext find?
  obtain rfl := names
  rfl

@[simp] theorem find?_empty {k : κ} : (empty : FileStore κ β).find? k = none := rfl

variable [DecidableEq κ] {s : FileStore κ β} {k k' : κ} {b : β}

/-- The value under `key` is replaced, or the key added. -/
def put (s : FileStore κ β) (key : κ) (value : β) : FileStore κ β where
  names := if key ∈ s.names then s.names else key :: s.names
  find? k := if k = key then some value else s.find? k
  nodup := by
    split
    · exact s.nodup
    · exact List.nodup_cons.mpr ⟨by assumption, s.nodup⟩
  mem_names := by
    intro k
    by_cases same : k = key
    · subst same
      split <;> simp_all
    · split <;> simp [same, s.mem_names]

def delete (s : FileStore κ β) (key : κ) : FileStore κ β where
  names := s.names.filter (· ≠ key)
  find? k := if k = key then none else s.find? k
  nodup := s.nodup.filter _
  mem_names := by
    intro k
    by_cases same : k = key <;> simp [same, s.mem_names]

/-- What is left when the files that `gone` tells of are. -/
def without (s : FileStore κ β) (gone : κ → Prop) [DecidablePred gone] : FileStore κ β where
  names := s.names.filter fun k => ¬ gone k
  find? k := if gone k then none else s.find? k
  nodup := s.nodup.filter _
  mem_names := by
    intro k
    by_cases lost : gone k <;> simp [lost, s.mem_names]

/-- What is in either of two stores, the first deciding where both have it. -/
def onTopOf (s t : FileStore κ β) : FileStore κ β where
  names := s.names ++ t.names.filter (· ∉ s.names)
  find? k := (s.find? k).or (t.find? k)
  nodup := by
    refine List.nodup_append.mpr ⟨s.nodup, t.nodup.filter _, fun a mine b theirs same => ?_⟩
    simp_all
  mem_names := by
    intro k
    by_cases mine : k ∈ s.names <;> simp_all [s.mem_names, t.mem_names]

theorem find?_onTopOf {t : FileStore κ β} : (s.onTopOf t).find? k = (s.find? k).or (t.find? k) := rfl

section
omit [DecidableEq κ]
variable {gone gone' : κ → Prop} [DecidablePred gone] [DecidablePred gone']

theorem find?_without : (s.without gone).find? k = if gone k then none else s.find? k := rfl

theorem without_congr (same : ∀ k, (s.find? k).isSome = true → (gone k ↔ gone' k)) :
    s.without gone = s.without gone' := by
  refine ext (List.filter_congr fun k named => ?_) fun k => ?_
  · simp [same k (s.mem_names.mp named)]
  · rw [find?_without, find?_without]
    cases found : s.find? k with
    | none => simp
    | some b => simp [same k (by simp [found])]

theorem without_none (left : ∀ k, ¬ gone k) : s.without gone = s := by
  exact ext (List.filter_eq_self.mpr fun k _ => decide_eq_true (left k)) fun k => if_neg (left k)

end

theorem delete_without {gone : κ → Prop} [DecidablePred gone] :
    (s.without gone).delete k = s.without fun k' => gone k' ∨ k' = k := by
  refine ext ?_ fun k' => ?_
  · change (s.names.filter _).filter _ = s.names.filter _
    rw [List.filter_filter]
    refine List.filter_congr fun k' _ => ?_
    by_cases same : k' = k <;> simp [same]
  · by_cases same : k' = k <;> simp [delete, without, same]

theorem find?_put : (s.put k b).find? k' = if k' = k then some b else s.find? k' := rfl

theorem find?_delete : (s.delete k).find? k' = if k' = k then none else s.find? k' := rfl

@[simp] theorem find?_put_self : (s.put k b).find? k = some b := if_pos rfl

@[simp] theorem find?_put_of_ne (other : k' ≠ k) : (s.put k b).find? k' = s.find? k' :=
  if_neg other

@[simp] theorem find?_delete_self : (s.delete k).find? k = none := if_pos rfl

@[simp] theorem find?_delete_of_ne (other : k' ≠ k) : (s.delete k).find? k' = s.find? k' :=
  if_neg other

/-- A file found after a deletion was there before it. -/
theorem find?_of_delete (found : (s.delete k).find? k' = some b) : s.find? k' = some b := by
  rw [find?_delete] at found
  split at found
  · contradiction
  · exact found

end FileStore

variable [DecidableEq κ] {s : FileStore κ β}

def Change.apply (s : FileStore κ β) : Change κ β → FileStore κ β
  | .put key value => s.put key value
  | .delete key => s.delete key

/-- The store after a run of changes. -/
def replay (changes : List (Change κ β)) (s : FileStore κ β) : FileStore κ β :=
  changes.foldl Change.apply s

variable {changes : List (Change κ β)} {c : Change κ β} {P : FileStore κ β → Prop}

@[simp] theorem replay_nil : replay [] s = s := rfl

theorem replay_snoc : replay (changes ++ [c]) s = c.apply (replay changes s) := by
  simp [replay]

/-- However short the run is cut, what it leaves satisfies `P`. -/
def Always (P : FileStore κ β → Prop) (s : FileStore κ β) (changes : List (Change κ β)) : Prop :=
  ∀ n, P (replay (changes.take n) s)

theorem always_nil : Always P s [] ↔ P s := by
  simp [Always]

theorem Always.last (always : Always P s changes) : P (replay changes s) := by
  simpa using always changes.length

/-- A run grows one change at a time: nothing before the new end is different. -/
theorem take_snoc {α : Type} {Q : List α → Prop} {run : List α} {a : α} {first : Nat}
    (all : ∀ n, first ≤ n → Q (run.take n)) (next : Q (run ++ [a])) :
    ∀ n, first ≤ n → Q ((run ++ [a]).take n) := by
  intro n later
  by_cases within : n ≤ run.length
  · rw [List.take_append_of_le_length within]
    exact all n later
  · rw [List.take_of_length_le (by simp; omega)]
    exact next

theorem Always.snoc (always : Always P s changes) (next : P (replay (changes ++ [c]) s)) :
    Always P s (changes ++ [c]) := fun n =>
  take_snoc (Q := fun run => P (replay run s)) (fun n _ => always n) next n (Nat.zero_le n)

/-- What a run leaves under a name is the last thing it put there. -/
theorem put_of_replay {k : κ} {b : β} (found : (replay changes FileStore.empty).find? k = some b) :
    .put k b ∈ changes := by
  induction changes using List.reverseRecOn with
  | nil => simp at found
  | append_singleton changes c ih =>
    rw [replay_snoc] at found
    cases c with
    | put key value =>
      by_cases same : k = key
      · subst same
        obtain rfl : value = b := by simpa [Change.apply] using found
        simp
      · exact List.mem_append_left _ (ih (by simpa [Change.apply, same] using found))
    | delete key => exact List.mem_append_left _ (ih (FileStore.find?_of_delete found))

end Library.Files
