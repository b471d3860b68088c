import Mathlib.Algebra.BigOperators.Group.Finset.Basic
import Mathlib.Algebra.Order.BigOperators.Group.Finset
import Mathlib.Data.Fintype.Basic

/-! Finitely many parties, each at a place, one of which moves at a time: what they
amount to together, and what each of them meets. Places and measures are arbitrary. -/
namespace Library.Parties

variable {ι ρ : Type} [DecidableEq ι] {places : ι → ρ} {i j : ι} {place : ρ}

/-- One party goes somewhere else. -/
def move (places : ι → ρ) (i : ι) (place : ρ) : ι → ρ := Function.update places i place

@[simp] theorem move_self : move places i place i = place := Function.update_self ..

theorem move_of_ne (other : j ≠ i) : move places i place j = places j := Function.update_of_ne other ..

/-- Who is somewhere now is the one who moved there, or was there before. -/
theorem of_move {q : ρ} (there : move places i place j = q) : place = q ∨ places j = q := by
  by_cases same : j = i
  · rw [same, move_self] at there
    exact .inl there
  · rw [move_of_ne same] at there
    exact .inr there

variable [Fintype ι] {f : ρ → Nat}

/-- A measure of the places, summed over everyone. -/
def total (f : ρ → Nat) (places : ι → ρ) : Nat := ∑ i, f (places i)

/-- Who moves takes its own measure along and nothing else. -/
theorem total_move (f : ρ → Nat) (places : ι → ρ) (i : ι) (place : ρ) :
    total f (move places i place) + f (places i) = total f places + f place := by
  unfold total
  rw [← Finset.add_sum_erase _ _ (Finset.mem_univ i), ← Finset.add_sum_erase _ (fun j => f (places j))
    (Finset.mem_univ i), move_self]
  have rest : ∑ j ∈ Finset.univ.erase i, f (move places i place j) =
      ∑ j ∈ Finset.univ.erase i, f (places j) := by
    apply Finset.sum_congr rfl
    intro j there
    rw [move_of_ne (Finset.ne_of_mem_erase there)]
  rw [rest]
  omega

omit [DecidableEq ι] in
/-- Going all at once to where the measure is the same. -/
theorem total_map {g : ρ → ρ} (same : ∀ place, f (g place) = f place) :
    total f (fun i => g (places i)) = total f places :=
  Finset.sum_congr rfl fun i _ => same (places i)

omit [DecidableEq ι] in
theorem le_total (f : ρ → Nat) (places : ι → ρ) (i : ι) : f (places i) ≤ total f places :=
  Finset.single_le_sum (f := fun i => f (places i)) (fun _ _ => Nat.zero_le _) (Finset.mem_univ i)

/-- Two of them together are no more than everyone. -/
theorem pair_le_total (f : ρ → Nat) (places : ι → ρ) (other : i ≠ j) :
    f (places i) + f (places j) ≤ total f places := by
  have one : f (places j) ≤ ∑ k ∈ Finset.univ.erase i, f (places k) :=
    Finset.single_le_sum (f := fun k => f (places k)) (fun _ _ => Nat.zero_le _)
      (Finset.mem_erase.mpr ⟨other.symm, Finset.mem_univ j⟩)
  have all : total f places = f (places i) + ∑ k ∈ Finset.univ.erase i, f (places k) :=
    (Finset.add_sum_erase _ (fun k => f (places k)) (Finset.mem_univ i)).symm
  omega

omit [DecidableEq ι] in
theorem exists_of_total_pos (some_ : 0 < total f places) : ∃ i, 0 < f (places i) := by
  by_contra none
  have zero : total f places = 0 := by
    apply Finset.sum_eq_zero
    intro i _
    have nothing := not_exists.mp none i
    omega
  omega

omit [DecidableEq ι] in
theorem total_eq_zero (none : ∀ i, f (places i) = 0) : total f places = 0 :=
  Finset.sum_eq_zero fun i _ => none i

omit [DecidableEq ι] in
theorem total_le_total {g : ρ → Nat} (le : ∀ i, f (places i) ≤ g (places i)) :
    total f places ≤ total g places :=
  Finset.sum_le_sum fun i _ => le i

end Library.Parties
