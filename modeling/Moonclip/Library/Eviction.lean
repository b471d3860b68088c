import Mathlib.Data.List.Basic

/-! Greedy eviction. A list over its limit gives up the victims one choice
names, and is asked again until it is within the limit or nobody may leave.
Items, limits and choices are arbitrary. -/
namespace Library.Eviction

variable {α : Type}

/-- The list shrank, but nothing the selection is after has left. -/
theorem filter_eq_of_sublist {after before : List α} {selected : α → Bool}
    (shrunk : after.Sublist before) (distinct : before.Nodup)
    (kept : ∀ x ∈ before, selected x = true → x ∈ after) :
    after.filter selected = before.filter selected := by
  induction shrunk with
  | slnil => rfl
  | @cons after before x shrunk ih =>
    obtain ⟨fresh, distinct⟩ := List.nodup_cons.mp distinct
    have left : selected x = false := by
      by_contra stays
      exact fresh (shrunk.subset (kept x (by simp) (by simpa using stays)))
    have same := ih distinct fun y hy stays => kept y (List.mem_cons_of_mem x hy) stays
    simp [left, same]
  | @cons_cons after before x shrunk ih =>
    obtain ⟨fresh, distinct⟩ := List.nodup_cons.mp distinct
    have same := ih distinct fun y hy stays => by
      rcases List.mem_cons.mp (kept y (List.mem_cons_of_mem x hy) stays) with rfl | present
      · exact absurd hy fresh
      · exact present
    simp [List.filter_cons, same]

/-- The same for the first `n`: what comes after them may leave. -/
theorem take_eq_of_sublist {after before : List α} {n : Nat}
    (shrunk : after.Sublist before) (distinct : before.Nodup)
    (kept : ∀ x ∈ before.take n, x ∈ after) : after.take n = before.take n := by
  induction shrunk generalizing n with
  | slnil => rfl
  | @cons after before x shrunk ih =>
    cases n with
    | zero => rfl
    | succ n =>
      have fresh := (List.nodup_cons.mp distinct).1
      exact absurd (shrunk.subset (kept x (by simp))) fresh
  | @cons_cons after before x shrunk ih =>
    cases n with
    | zero => rfl
    | succ n =>
      obtain ⟨fresh, distinct⟩ := List.nodup_cons.mp distinct
      have same : after.take n = before.take n := by
        refine ih distinct fun y hy => ?_
        rcases List.mem_cons.mp (kept y (List.mem_cons_of_mem x hy)) with rfl | present
        · exact absurd (List.mem_of_mem_take hy) fresh
        · exact present
      simp [same]

/-- What the loop consults. A choice names somebody who is present, so every
round removes an item and the loop ends. -/
structure Policy (α : Type) where
  exceeds : List α → Bool
  choose : List α → Option (α → Bool)
  progress : ∀ {items victim}, choose items = some victim → ∃ item ∈ items, victim item = true

variable (p : Policy α) {items : List α}

namespace Policy

/-- At most `n` rounds: what is kept, and what left in the order it left. -/
def rounds : Nat → List α → List α × List α
  | 0, items => (items, [])
  | n + 1, items =>
    if p.exceeds items then
      match p.choose items with
      | none => (items, [])
      | some victim =>
        let rest := rounds n (items.filter (!victim ·))
        (rest.1, items.filter victim ++ rest.2)
    else (items, [])

/-- Each round removes an item, so the length of the list is enough fuel. -/
def evict (items : List α) : List α × List α := p.rounds items.length items

/-- The loop stops here: within the limit, or nobody may leave. -/
def Settled (items : List α) : Prop := p.exceeds items = false ∨ p.choose items = none

variable {p}

theorem filter_length_lt (chosen : p.choose items = some victim) :
    (items.filter (!victim ·)).length < items.length := by
  obtain ⟨item, present, leaves⟩ := p.progress chosen
  exact List.length_filter_lt_length_iff_exists.mpr ⟨item, present, by simp [leaves]⟩

theorem rounds_of_settled (settled : p.Settled items) : p.rounds n items = (items, []) := by
  cases n with
  | zero => rfl
  | succ n =>
    rcases settled with within | stuck
    · simp [rounds, within]
    · simp only [rounds, stuck]
      split <;> rfl

theorem rounds_step (exceeds : p.exceeds items = true) (chosen : p.choose items = some victim) :
    p.rounds (n + 1) items = ((p.rounds n (items.filter (!victim ·))).1,
      items.filter victim ++ (p.rounds n (items.filter (!victim ·))).2) := by
  simp only [rounds, exceeds, chosen, if_true]

/-- An invariant of one removal is an invariant of the rounds. -/
theorem rounds_induction {P : List α → List α → List α → Prop}
    (settled : ∀ {items}, p.Settled items → P items items [])
    (step : ∀ {items victim kept evicted}, p.exceeds items = true → p.choose items = some victim →
      P (items.filter (!victim ·)) kept evicted → P items kept (items.filter victim ++ evicted))
    (n : Nat) (items : List α) (enough : items.length ≤ n) :
    P items (p.rounds n items).1 (p.rounds n items).2 := by
  induction n generalizing items with
  | zero =>
    have empty : items = [] := List.eq_nil_of_length_eq_zero (by omega)
    subst empty
    refine settled (.inr ?_)
    cases chosen : p.choose [] with
    | none => rfl
    | some victim => simpa using p.progress chosen
  | succ n ih =>
    cases exceeds : p.exceeds items with
    | false =>
      rw [rounds_of_settled (.inl exceeds)]
      exact settled (.inl exceeds)
    | true =>
      cases chosen : p.choose items with
      | none =>
        rw [rounds_of_settled (.inr chosen)]
        exact settled (.inr chosen)
      | some victim =>
        rw [rounds_step exceeds chosen]
        have shorter := filter_length_lt chosen
        exact step exceeds chosen (ih _ (by omega))

/-- The induction rule of the loop: relate what came in to what was kept and
what left, for a settled list and across one removal. -/
theorem evict_induction {P : List α → List α → List α → Prop}
    (settled : ∀ {items}, p.Settled items → P items items [])
    (step : ∀ {items victim kept evicted}, p.exceeds items = true → p.choose items = some victim →
      P (items.filter (!victim ·)) kept evicted → P items kept (items.filter victim ++ evicted)) :
    P items (p.evict items).1 (p.evict items).2 :=
  rounds_induction settled step _ items (Nat.le_refl _)

theorem evict_of_settled (settled : p.Settled items) : p.evict items = (items, []) :=
  rounds_of_settled settled

theorem evict_settled : p.Settled (p.evict items).1 :=
  evict_induction (P := fun _ kept _ => p.Settled kept) id (fun _ _ rest => rest)

theorem evict_sublist : (p.evict items).1.Sublist items :=
  evict_induction (P := fun items kept _ => kept.Sublist items) (fun _ => .refl _)
    (fun _ _ rest => rest.trans List.filter_sublist)

/-- Nothing is lost and nothing is invented: the kept and the evicted together
are the items. -/
theorem evict_perm : ((p.evict items).1 ++ (p.evict items).2).Perm items := by
  refine evict_induction (P := fun items kept evicted => (kept ++ evicted).Perm items)
    (fun _ => by simp) ?_
  intro items victim kept evicted _ _ rest
  have regroup : (kept ++ (items.filter victim ++ evicted)).Perm
      (items.filter victim ++ (kept ++ evicted)) := by
    simpa only [List.append_assoc] using List.perm_append_comm_assoc kept _ evicted
  exact regroup.trans ((rest.append_left _).trans (List.filter_append_perm victim items))

/-- What every removal preserves, the loop preserves. -/
theorem evict_invariant {P : List α → Prop}
    (step : ∀ {items victim}, P items → p.exceeds items = true → p.choose items = some victim →
      P (items.filter (!victim ·)))
    (holds : P items) : P (p.evict items).1 :=
  evict_induction (P := fun items kept _ => P items → P kept) (fun _ => id)
    (fun exceeds chosen rest holds => rest (step holds exceeds chosen)) holds

/-- Where every choice is by a key, so is what leaves. -/
theorem evict_byKey {κ : Type} {key : α → κ}
    (byKey : ∀ {items victim}, p.choose items = some victim → ∃ gone : κ → Bool, ∀ a,
      victim a = gone (key a)) :
    ∃ gone : κ → Bool, (p.evict items).1 = items.filter fun a => !gone (key a) := by
  refine evict_induction (P := fun items kept _ => ∃ gone : κ → Bool, kept = items.filter fun a =>
    !gone (key a)) ?_ ?_
  · intro items _
    exact ⟨fun _ => false, by simp⟩
  · rintro items victim kept evicted _ chosen ⟨later, rfl⟩
    obtain ⟨now, same⟩ := byKey chosen
    refine ⟨fun k => now k || later k, ?_⟩
    rw [List.filter_filter]
    refine List.filter_congr fun a _ => ?_
    rw [same, Bool.not_or, Bool.and_comm]

/-- Loops that choose alike on a list and on its image keep and evict alike. -/
theorem rounds_map {β : Type} {q : Policy β} {f : α → β}
    (exceeds : ∀ items, q.exceeds (items.map f) = p.exceeds items)
    (choose : ∀ items, (q.choose (items.map f)).map (· ∘ f) = p.choose items) (n : Nat) (items : List α) :
    q.rounds n (items.map f) = ((p.rounds n items).1.map f, (p.rounds n items).2.map f) := by
  induction n generalizing items with
  | zero => rfl
  | succ n ih =>
    simp only [rounds, exceeds, ← choose]
    split
    · cases q.choose (items.map f) with
      | none => rfl
      | some victim =>
        have rest := ih (items.filter (!(victim ∘ f) ·))
        simp only [Option.map_some, List.filter_map, List.map_append, Function.comp_def] at rest ⊢
        rw [rest]
    · rfl

theorem evict_map {β : Type} {q : Policy β} {f : α → β}
    (exceeds : ∀ items, q.exceeds (items.map f) = p.exceeds items)
    (choose : ∀ items, (q.choose (items.map f)).map (· ∘ f) = p.choose items) (items : List α) :
    q.evict (items.map f) = ((p.evict items).1.map f, (p.evict items).2.map f) := by
  unfold evict
  rw [List.length_map]
  exact rounds_map exceeds choose _ items

end Policy
end Library.Eviction
