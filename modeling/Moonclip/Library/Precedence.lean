import Mathlib.Data.List.Sort

/-! Which of two elements of a list comes up first, and what a stable sort makes
of that. -/
namespace Library.Precedence

variable {α : Type} {l before after : List α} {a b : α}

/-- One of two members of a list comes up before the other. -/
theorem pair_sublist (here : a ∈ l) (there : b ∈ l) (other : a ≠ b) :
    [a, b].Sublist l ∨ [b, a].Sublist l := by
  obtain ⟨before, after, rfl⟩ := List.append_of_mem here
  rcases List.mem_append.mp there with first | last
  · exact .inr ((List.singleton_sublist.mpr first).append (List.singleton_sublist.mpr (by simp)))
  · have last : b ∈ after := (List.mem_cons.mp last).resolve_left other.symm
    exact .inl (((List.singleton_sublist.mpr last).cons_cons a).trans (List.sublist_append_right _ _))

theorem pair_asymm (once : l.Nodup) (first : [a, b].Sublist l) : ¬ [b, a].Sublist l := by
  intro last
  induction l with
  | nil => cases first
  | cons c rest ih =>
    obtain ⟨new, once⟩ := List.nodup_cons.mp once
    cases first with
    | cons _ first =>
      cases last with
      | cons _ last => exact ih once first last
      | cons_cons _ last => exact new (first.subset (by simp))
    | cons_cons _ first =>
      cases last with
      | cons _ last => exact new (last.subset (by simp))
      | cons_cons _ last => exact new (first.subset (by simp))

/-- What comes up before an element that is in a list once. -/
theorem mem_before (once : (before ++ a :: after).Nodup) (pair : [b, a].Sublist (before ++ a :: after)) :
    b ∈ before := by
  obtain ⟨first, last, split, inBefore, inAfter⟩ := List.sublist_append_iff.mp pair
  have single : a ∉ after := (List.nodup_cons.mp (List.nodup_append.mp once).2.1).1
  cases first with
  | nil =>
    obtain rfl : last = [b, a] := by simpa using split.symm
    cases inAfter with
    | cons _ deeper => exact absurd (deeper.subset (by simp)) single
    | cons_cons _ deeper => exact absurd (deeper.subset (by simp)) single
  | cons c rest =>
    obtain ⟨rfl, _⟩ : b = c ∧ _ := List.cons.inj split
    exact inBefore.subset (by simp)

theorem idxOf_lt_of_pair [DecidableEq α] (once : l.Nodup) (first : [a, b].Sublist l) :
    l.idxOf a < l.idxOf b := by
  obtain ⟨before, after, rfl⟩ := List.append_of_mem (first.subset (by simp : b ∈ [a, b]))
  have early := mem_before once first
  have new : b ∉ before := fun there => (List.nodup_append.mp once).2.2 b there b (by simp) rfl
  rw [List.idxOf_append_of_mem early, List.idxOf_append_of_notMem new, List.idxOf_cons_self, Nat.add_zero]
  exact List.idxOf_lt_length_of_mem early

section
variable {key : α → Nat}

theorem sortBy_sorted (key : α → Nat) (l : List α) :
    (l.insertionSort fun a b => key a ≤ key b).Pairwise fun a b => key a ≤ key b := by
  have : Std.Total fun a b : α => key a ≤ key b := ⟨fun a b => le_total _ _⟩
  have : IsTrans α fun a b => key a ≤ key b := ⟨fun _ _ _ => le_trans⟩
  exact List.pairwise_insertionSort _ _

/-- Sorted by a key, elements of one key stay in their order. -/
theorem pair_sortBy (once : l.Nodup) (here : a ∈ l) (there : b ∈ l) (other : a ≠ b) :
    [a, b].Sublist (l.insertionSort fun a b => key a ≤ key b) ↔
      key a < key b ∨ key a = key b ∧ [a, b].Sublist l := by
  have : Std.Total fun a b : α => key a ≤ key b := ⟨fun a b => le_total _ _⟩
  have : IsTrans α fun a b => key a ≤ key b := ⟨fun _ _ _ => le_trans⟩
  constructor
  · intro first
    have le : key a ≤ key b := by simpa using (sortBy_sorted key l).sublist first
    rcases lt_or_eq_of_le le with lt | eq
    · exact .inl lt
    · rcases pair_sublist here there other with kept | swapped
      · exact .inr ⟨eq, kept⟩
      · have last := List.pair_sublist_insertionSort (r := fun a b => key a ≤ key b) eq.ge swapped
        exact absurd last (pair_asymm ((List.perm_insertionSort _ l).nodup_iff.mpr once) first)
  · rintro (lt | ⟨eq, kept⟩)
    · have here := (List.mem_insertionSort fun a b => key a ≤ key b).mpr here
      have there := (List.mem_insertionSort fun a b => key a ≤ key b).mpr there
      rcases pair_sublist here there other with kept | swapped
      · exact kept
      · have le : key b ≤ key a := by simpa using (sortBy_sorted key l).sublist swapped
        omega
    · exact List.pair_sublist_insertionSort eq.le kept

end
end Library.Precedence
