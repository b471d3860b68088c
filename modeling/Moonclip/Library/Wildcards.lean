import Mathlib.Data.List.Basic

/-! Patterns with a wildcard, over any letters: the texts that filling the wildcards in
makes of a pattern. -/
namespace Library.Wildcards

/-- The text is the pattern with each wildcard replaced by some text, empty perhaps. -/
inductive Fills {α : Type} (star : α) : List α → List α → Prop where
  | nil : Fills star [] []
  | wild {p n : List α} (w : List α) (rest : Fills star p n) : Fills star (star :: p) (w ++ n)
  | letter {c : α} {p n : List α} (plain : c ≠ star) (rest : Fills star p n) : Fills star (c :: p) (c :: n)

variable {α : Type} {star c : α} {p q seg n n' : List α}

theorem fills_nil : Fills star [] n ↔ n = [] := by
  constructor
  · intro filled
    cases filled
    rfl
  · rintro rfl
    exact .nil

/-- A wildcard takes up as much as it has to, from where it stands. -/
theorem fills_wild : Fills star (star :: p) n ↔ ∃ r, Fills star p (n.drop r) := by
  constructor
  · intro filled
    cases filled with
    | wild w rest => exact ⟨w.length, by simpa using rest⟩
    | letter plain rest => exact absurd rfl plain
  · rintro ⟨r, rest⟩
    have filled := Fills.wild (n.take r) rest
    rwa [List.take_append_drop] at filled

theorem fills_letter (plain : c ≠ star) : Fills star (c :: p) n ↔ ∃ n', n = c :: n' ∧ Fills star p n' := by
  constructor
  · intro filled
    cases filled with
    | wild w rest => exact absurd rfl plain
    | letter _ rest => exact ⟨_, rfl, rest⟩
  · rintro ⟨n', rfl, rest⟩
    exact .letter plain rest

/-- Up to the first wildcard a pattern stands for itself. -/
theorem fills_append (plain : star ∉ seg) : Fills star (seg ++ p) n ↔ ∃ n', n = seg ++ n' ∧
    Fills star p n' := by
  induction seg generalizing n with
  | nil => simp
  | cons c seg ih =>
    obtain ⟨first, others⟩ := List.ne_and_not_mem_of_not_mem_cons plain
    rw [List.cons_append, fills_letter (Ne.symm first)]
    constructor
    · rintro ⟨n', rfl, filled⟩
      obtain ⟨n'', rfl, rest⟩ := (ih others).mp filled
      exact ⟨n'', rfl, rest⟩
    · rintro ⟨n', rfl, rest⟩
      exact ⟨seg ++ n', rfl, (ih others).mpr ⟨n', rfl, rest⟩⟩

/-- Nothing is left but wildcards. -/
theorem fills_empty : Fills star p [] ↔ ∀ c ∈ p, c = star := by
  constructor
  · intro filled
    generalize nothing : ([] : List α) = n at filled
    induction filled with
    | nil => simp
    | wild w rest ih =>
      obtain ⟨_, rfl⟩ := List.append_eq_nil_iff.mp nothing.symm
      simpa using ih rfl
    | letter plain rest => contradiction
  · intro all
    induction p with
    | nil => exact .nil
    | cons c p ih =>
      obtain ⟨rfl, others⟩ := List.forall_mem_cons.mp all
      exact .wild [] (ih others)

/-- What stands before the first wildcard after the last one tried: the pattern from there
on, with `q` left of it, agrees with the text, with `n'` left of it. -/
structure Segment {α : Type} (star : α) (seg p q n n' : List α) : Prop where
  plain : star ∉ seg
  pattern : p = seg ++ q
  text : n = seg ++ n'

theorem Segment.start : Segment star [] p p n n := ⟨List.not_mem_nil, rfl, rfl⟩

theorem Segment.letter (segment : Segment star seg p (c :: q) n (c :: n')) (plain : c ≠ star) :
    Segment star (seg ++ [c]) p q n n' where
  plain := by
    simpa [segment.plain] using Ne.symm plain
  pattern := by simp [segment.pattern]
  text := by simp [segment.text]

/-- The text is tried where the segment is found, with what follows it. -/
theorem Segment.fills_iff (segment : Segment star seg p q n n') : Fills star p n ↔ Fills star q n' := by
  rw [segment.pattern, segment.text, fills_append segment.plain]
  simp

/-- At the next wildcard the last one need never be tried again: wherever else the
segment is found, this one has been passed, and can take up what is between. -/
theorem Segment.wild (segment : Segment star seg p (star :: q) n n') :
    (∃ r, Fills star p (n.drop r)) ↔ ∃ r, Fills star q (n'.drop r) := by
  constructor
  · rintro ⟨r, filled⟩
    rw [segment.pattern, fills_append segment.plain] at filled
    obtain ⟨rest, found, filled⟩ := filled
    obtain ⟨k, filled⟩ := fills_wild.mp filled
    have tail : n.drop (r + seg.length) = rest := by
      rw [← List.drop_drop, found, List.drop_left]
    have after : n.drop (seg.length + (r + k)) = rest.drop k := by
      rw [← tail, List.drop_drop]
      congr 1
      omega
    rw [segment.text, ← List.drop_drop, List.drop_left] at after
    exact ⟨r + k, after ▸ filled⟩
  · intro filled
    have whole := segment.fills_iff.mpr (fills_wild.mpr filled)
    exact ⟨0, whole⟩

/-- Where the text ends, nothing but wildcards may be left. -/
theorem Segment.ends (segment : Segment star seg p q n []) :
    (∃ r, Fills star p (n.drop r)) ↔ ∀ c ∈ q, c = star := by
  rw [← fills_empty]
  constructor
  · rintro ⟨r, filled⟩
    rw [segment.pattern, fills_append segment.plain] at filled
    obtain ⟨rest, found, filled⟩ := filled
    have less := congrArg List.length found
    rw [segment.text, List.length_drop, List.length_append, List.length_append, List.length_nil] at less
    obtain rfl := List.eq_nil_of_length_eq_zero (show rest.length = 0 by omega)
    exact filled
  · exact fun filled => ⟨0, segment.fills_iff.mpr filled⟩

end Library.Wildcards
