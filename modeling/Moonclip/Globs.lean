import Moonclip.Cast
import Moonclip.Library.Wildcards

/-! Which tensors a rule is for: the loop that matches a name against a pattern ends, and
answers whether the pattern's stars can be filled in to make the name. -/
namespace Moonclip
open Library.Wildcards

namespace Cast

/-- Where the loop of `glob_match` stands. -/
structure GlobState where
  pi : Nat
  ni : Nat
  star : Option Nat
  resume : Nat

/-- One turn of it: it goes on, or returns. -/
def globTurn (p n : List Char) (s : GlobState) : GlobState ⊕ Bool :=
  if s.ni < n.length then
    if p[s.pi]? = some '*' then .inl ⟨s.pi + 1, s.ni, some s.pi, s.ni⟩
    else if s.pi < p.length ∧ p[s.pi]? = n[s.ni]? then .inl ⟨s.pi + 1, s.ni + 1, s.star, s.resume⟩
    else match s.star with
      | some star => .inl ⟨star + 1, s.resume + 1, s.star, s.resume + 1⟩
      | none => .inr false
  else .inr ((p.drop s.pi).all (· == '*'))

/-- What the loop returns, if it does within so many turns. -/
def globRun (p n : List Char) : Nat → GlobState → Option Bool
  | 0, _ => none
  | turns + 1, s =>
    match globTurn p n s with
    | .inl s' => globRun p n turns s'
    | .inr answer => some answer

/-- What is left to do: places to resume from, and letters of the pattern in between. -/
def globCost (p n : List Char) (s : GlobState) : Nat :=
  (n.length - s.resume) * (p.length + 2) + (p.length - s.pi)

/-- What the loop knows: the name makes up the pattern if what is left of it does, from
where the last star was passed or from further on. -/
structure Searching (p n : List Char) (s : GlobState) : Prop where
  pattern : s.pi ≤ p.length
  text : s.ni ≤ n.length
  behind : s.resume ≤ s.ni
  plain : s.star = none → (Fills '*' p n ↔ Fills '*' (p.drop s.pi) (n.drop s.ni))
  retry : ∀ star, s.star = some star → star < p.length ∧
    (∃ seg, Segment '*' seg (p.drop (star + 1)) (p.drop s.pi) (n.drop s.resume) (n.drop s.ni)) ∧
    (Fills '*' p n ↔ ∃ r, Fills '*' (p.drop (star + 1)) ((n.drop s.resume).drop r))

variable {p n : List Char} {s : GlobState} {turns : Nat}

theorem searching_start : Searching p n ⟨0, 0, none, 0⟩ :=
  ⟨Nat.zero_le _, Nat.zero_le _, Nat.le_refl 0, fun _ => by simp, nofun⟩

/-- A star: from here on it is the one to retry. -/
theorem Searching.star (held : Searching p n s) (wild : p[s.pi]? = some '*') :
    Searching p n ⟨s.pi + 1, s.ni, some s.pi, s.ni⟩ := by
  obtain ⟨within, letter⟩ := List.getElem?_eq_some_iff.mp wild
  have here : p.drop s.pi = '*' :: p.drop (s.pi + 1) := by
    rw [List.drop_eq_getElem_cons within, letter]
  refine ⟨within, held.text, Nat.le_refl _, nofun, fun star same => ?_⟩
  obtain rfl := Option.some.inj same
  refine ⟨within, ⟨[], .start⟩, ?_⟩
  cases last : s.star with
  | none => rw [held.plain last, here, fills_wild]
  | some star =>
    obtain ⟨_, ⟨seg, segment⟩, known⟩ := held.retry star last
    rw [here] at segment
    rw [known, segment.wild]

/-- A letter the name has too. -/
theorem Searching.letter (held : Searching p n s) (more : s.ni < n.length) (plain : p[s.pi]? ≠ some '*')
    (within : s.pi < p.length) (same : p[s.pi]? = n[s.ni]?) :
    Searching p n ⟨s.pi + 1, s.ni + 1, s.star, s.resume⟩ := by
  rw [List.getElem?_eq_getElem within, List.getElem?_eq_getElem more] at same
  have alike := Option.some.inj same
  have letter : p[s.pi] ≠ '*' := by
    simpa [List.getElem?_eq_getElem within] using plain
  have here : p.drop s.pi = p[s.pi] :: p.drop (s.pi + 1) := List.drop_eq_getElem_cons within
  have there : n.drop s.ni = p[s.pi] :: n.drop (s.ni + 1) := by
    rw [List.drop_eq_getElem_cons more, alike]
  refine ⟨within, more, Nat.le_succ_of_le held.behind, fun none => ?_, fun star last => ?_⟩
  · rw [held.plain none, here, there, fills_letter letter]
    simp
  · obtain ⟨earlier, ⟨seg, segment⟩, known⟩ := held.retry star last
    rw [here, there] at segment
    exact ⟨earlier, ⟨_, segment.letter letter⟩, known⟩

/-- What is left of the pattern does not make up what is left of the name. -/
theorem not_fills_of_mismatch (more : s.ni < n.length) (plain : p[s.pi]? ≠ some '*')
    (differ : ¬ (s.pi < p.length ∧ p[s.pi]? = n[s.ni]?)) : ¬ Fills '*' (p.drop s.pi) (n.drop s.ni) := by
  intro filled
  have there : n.drop s.ni = n[s.ni] :: n.drop (s.ni + 1) := List.drop_eq_getElem_cons more
  by_cases within : s.pi < p.length
  · have letter : p[s.pi] ≠ '*' := by
      simpa [List.getElem?_eq_getElem within] using plain
    rw [List.drop_eq_getElem_cons within, there, fills_letter letter] at filled
    obtain ⟨_, same, _⟩ := filled
    refine differ ⟨within, ?_⟩
    rw [List.getElem?_eq_getElem within, List.getElem?_eq_getElem more, (List.cons.inj same).1]
  · rw [List.drop_of_length_le (Nat.le_of_not_lt within), there, fills_nil] at filled
    contradiction

/-- The last star has eaten too little. -/
theorem Searching.back (held : Searching p n s) (more : s.ni < n.length) (plain : p[s.pi]? ≠ some '*')
    (differ : ¬ (s.pi < p.length ∧ p[s.pi]? = n[s.ni]?)) {star : Nat} (last : s.star = some star) :
    Searching p n ⟨star + 1, s.resume + 1, s.star, s.resume + 1⟩ := by
  obtain ⟨earlier, ⟨seg, segment⟩, known⟩ := held.retry star last
  have behind := held.behind
  refine ⟨earlier, by simp only; omega, Nat.le_refl _, fun none => ?_, fun star' same => ?_⟩
  · rw [last] at none
    contradiction
  · obtain rfl : star = star' := Option.some.inj (last.symm.trans same)
    have further : ∀ r, (n.drop (s.resume + 1)).drop r = (n.drop s.resume).drop (r + 1) := by
      intro r
      rw [List.drop_drop, List.drop_drop]
      congr 1
      omega
    refine ⟨earlier, ⟨[], .start⟩, known.trans ⟨?_, ?_⟩⟩
    · rintro ⟨r, filled⟩
      cases r with
      | zero => exact absurd (segment.fills_iff.mp filled) (not_fills_of_mismatch more plain differ)
      | succ r => exact ⟨r, (further r).symm ▸ filled⟩
    · rintro ⟨r, filled⟩
      exact ⟨r + 1, further r ▸ filled⟩

/-- The name is used up. -/
theorem Searching.ends (held : Searching p n s) (done : ¬ s.ni < n.length) :
    (p.drop s.pi).all (· == '*') = true ↔ Fills '*' p n := by
  have nothing : n.drop s.ni = [] := List.drop_of_length_le (Nat.le_of_not_lt done)
  have all : (p.drop s.pi).all (· == '*') = true ↔ ∀ c ∈ p.drop s.pi, c = '*' := by simp
  rw [all]
  cases last : s.star with
  | none => rw [held.plain last, nothing, fills_empty]
  | some star =>
    obtain ⟨_, ⟨seg, segment⟩, known⟩ := held.retry star last
    rw [nothing] at segment
    rw [known, segment.ends]

/-- A turn that goes on has less to do, and knows as much; one that returns is right. -/
theorem globTurn_keeps (held : Searching p n s) :
    match globTurn p n s with
    | .inl s' => Searching p n s' ∧ globCost p n s' < globCost p n s
    | .inr answer => answer = true ↔ Fills '*' p n := by
  have pattern := held.pattern
  have text := held.text
  have behind := held.behind
  unfold globTurn
  by_cases more : s.ni < n.length
  · rw [if_pos more]
    by_cases wild : p[s.pi]? = some '*'
    · rw [if_pos wild]
      have within := (List.getElem?_eq_some_iff.mp wild).1
      refine ⟨held.star wild, ?_⟩
      have fewer := Nat.mul_le_mul_right (p.length + 2) (Nat.sub_le_sub_left behind n.length)
      simp only [globCost]
      omega
    · rw [if_neg wild]
      by_cases same : s.pi < p.length ∧ p[s.pi]? = n[s.ni]?
      · rw [if_pos same]
        refine ⟨held.letter more wild same.1 same.2, ?_⟩
        simp only [globCost]
        omega
      · rw [if_neg same]
        cases last : s.star with
        | none => exact ⟨nofun, fun filled =>
            absurd ((held.plain last).mp filled) (not_fills_of_mismatch more wild same)⟩
        | some star =>
          refine ⟨last ▸ held.back more wild same last, ?_⟩
          have places : n.length - s.resume = (n.length - (s.resume + 1)) + 1 := by omega
          simp only [globCost]
          rw [places, Nat.succ_mul]
          omega
  · rw [if_neg more]
    exact held.ends more

/-- With turns enough the loop returns, and what it returns is right. -/
theorem globRun_returns (held : Searching p n s) (enough : globCost p n s < turns) :
    ∃ answer, globRun p n turns s = some answer ∧ (answer = true ↔ Fills '*' p n) := by
  induction turns generalizing s with
  | zero => omega
  | succ turns ih =>
    have kept := globTurn_keeps held
    unfold globRun
    cases turn : globTurn p n s with
    | inl s' =>
      rw [turn] at kept
      exact ih kept.1 (by omega)
    | inr answer =>
      rw [turn] at kept
      exact ⟨answer, rfl, kept⟩

theorem globLoop_eq : globLoop p n turns s.pi s.ni s.star s.resume = (globRun p n turns s).getD false := by
  induction turns generalizing s with
  | zero => rfl
  | succ turns ih =>
    unfold globLoop globRun globTurn
    split
    · split
      · exact @ih ⟨_, _, _, _⟩
      · split
        · exact @ih ⟨_, _, _, _⟩
        · cases s.star with
          | none => rfl
          | some star => exact @ih ⟨_, _, _, _⟩
    · rfl

/-- A pattern matches a name whose letters it becomes when its stars are filled in. -/
def Glob (pattern name : String) : Prop := Fills '*' pattern.toList name.toList

theorem globMatch_spec (pattern name : String) :
    (∃ turns, globRun pattern.toList name.toList turns ⟨0, 0, none, 0⟩ = some (globMatch pattern name)) ∧
      (globMatch pattern name = true ↔ Glob pattern name) := by
  obtain ⟨answer, ran, right⟩ := @globRun_returns pattern.toList name.toList ⟨0, 0, none, 0⟩
    ((name.toList.length + 2) * (pattern.toList.length + 2)) searching_start (by
      simp only [globCost, Nat.sub_zero, Nat.add_mul]
      omega)
  have same : globMatch pattern name = answer := by
    have looped := @globLoop_eq pattern.toList name.toList ⟨0, 0, none, 0⟩
      ((name.toList.length + 2) * (pattern.toList.length + 2))
    rw [ran] at looped
    exact looped
  rw [same]
  exact ⟨⟨_, ran⟩, right⟩

/-- The matcher ends and decides the relation, whatever pattern and name; so the dtype a
tensor is stored as is the first rule's whose pattern its name makes up, or its own. -/
theorem globMatch_exact :
    (∀ pattern name : String,
      (∃ turns, globRun pattern.toList name.toList turns ⟨0, 0, none, 0⟩ = some (globMatch pattern name)) ∧
        (globMatch pattern name = true ↔ Glob pattern name)) ∧
    ∀ (policy : DTypePolicy) (name : String),
      (∃ before rule after, policy.rules = before ++ rule :: after ∧ (∀ r ∈ before, ¬ Glob r.1 name) ∧
        Glob rule.1 name ∧ policy.forTensor name = rule.2) ∨
      (∀ r ∈ policy.rules, ¬ Glob r.1 name) ∧ policy.forTensor name = .none := by
  refine ⟨globMatch_spec, fun policy name => ?_⟩
  have decides : ∀ r : String × DType, globMatch r.1 name = true ↔ Glob r.1 name := fun r =>
    (globMatch_spec r.1 name).2
  unfold DTypePolicy.forTensor
  cases found : policy.rules.find? fun rule => globMatch rule.1 name with
  | some rule =>
    obtain ⟨own, before, after, split, earlier⟩ := List.find?_eq_some_iff_append.mp found
    refine .inl ⟨before, rule, after, split, fun r there => ?_, (decides rule).mp own, rfl⟩
    rw [← decides]
    simpa using earlier r there
  | none =>
    refine .inr ⟨fun r there => ?_, rfl⟩
    rw [← decides]
    exact List.find?_eq_none.mp found r there

end Cast
end Moonclip
