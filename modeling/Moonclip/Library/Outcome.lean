import Mathlib.Data.List.Forall2

/-! Computations that return or raise: what a success says about its parts. -/
namespace Library.Outcome

variable {ε α β γ : Type}

@[simp] theorem bind_eq_ok {x : Except ε α} {f : α → Except ε β} {b : β} :
    (x >>= f) = .ok b ↔ ∃ a, x = .ok a ∧ f a = .ok b := by
  cases x <;> simp [bind, Except.bind]

@[simp] theorem map_eq_ok {x : Except ε α} {f : α → β} {b : β} :
    (f <$> x) = .ok b ↔ ∃ a, x = .ok a ∧ f a = b := by
  cases x <;> simp [Functor.map, Except.map]

@[simp] theorem pure_eq_ok {a b : α} : (pure a : Except ε α) = .ok b ↔ a = b := by
  simp [pure, Except.pure]

@[simp] theorem throw_ne_ok {e : ε} {b : α} : (throw e : Except ε α) ≠ .ok b := by
  simp [throw, throwThe, MonadExceptOf.throw]

@[simp] theorem mapError_eq_ok {result : Except ε α} {blame : ε → γ} {value : α} :
    result.mapError blame = .ok value ↔ result = .ok value := by
  cases result with
  | ok found => simp [Except.mapError]
  | error raised => simp [Except.mapError]

theorem toOption_eq_some {x : Except ε α} {a : α} : x.toOption = some a ↔ x = .ok a := by
  cases x <;> simp [Except.toOption]

/-- Every item is done, in order, or nothing is returned. -/
theorem mapM_eq_ok {f : α → Except ε β} {items : List α} {results : List β} :
    items.mapM f = .ok results ↔ List.Forall₂ (fun a b => f a = .ok b) items results := by
  induction items generalizing results with
  | nil => cases results <;> simp
  | cons a rest ih =>
    rw [List.mapM_cons]
    constructor
    · intro returned
      simp only [bind_eq_ok, pure_eq_ok] at returned
      obtain ⟨b, first, bs, others, rfl⟩ := returned
      exact .cons first (ih.mp others)
    · rintro (_ | ⟨first, others⟩)
      simp only [bind_eq_ok, pure_eq_ok]
      exact ⟨_, first, _, ih.mpr others, rfl⟩

/-- The same, for computations that only return nothing when they fail. -/
theorem mapM_eq_some {f : α → Option β} {items : List α} {results : List β} :
    items.mapM f = some results ↔ List.Forall₂ (fun a b => f a = some b) items results := by
  induction items generalizing results with
  | nil => cases results <;> simp
  | cons a rest ih =>
    rw [List.mapM_cons]
    constructor
    · intro returned
      simp only [Option.bind_eq_bind, Option.bind_eq_some_iff, Option.pure_def, Option.some.injEq] at returned
      obtain ⟨b, first, bs, others, rfl⟩ := returned
      exact .cons first (ih.mp others)
    · rintro (_ | ⟨first, others⟩)
      simp only [Option.bind_eq_bind, Option.bind_eq_some_iff, Option.pure_def, Option.some.injEq]
      exact ⟨_, first, _, ih.mpr others, rfl⟩

section
variable {R : α → β → Prop} {items : List α} {results : List β}

theorem exists_item (pairs : List.Forall₂ R items results) {b : β} (present : b ∈ results) :
    ∃ a ∈ items, R a b := by
  induction pairs with
  | nil => simp at present
  | cons first _ ih =>
    rcases List.mem_cons.mp present with rfl | later
    · exact ⟨_, by simp, first⟩
    · obtain ⟨a, there, related⟩ := ih later
      exact ⟨a, by simp [there], related⟩

theorem exists_result (pairs : List.Forall₂ R items results) {a : α} (present : a ∈ items) :
    ∃ b ∈ results, R a b :=
  exists_item pairs.flip present

theorem exists_results (each : ∀ a ∈ items, ∃ b, R a b) : ∃ results, List.Forall₂ R items results := by
  induction items with
  | nil => exact ⟨[], .nil⟩
  | cons a rest ih =>
    obtain ⟨b, related⟩ := each a (by simp)
    obtain ⟨results, others⟩ := ih fun a there => each a (by simp [there])
    exact ⟨b :: results, .cons related others⟩

/-- Lists related through a third are related element by element. -/
theorem compose {S : β → γ → Prop} {T : α → γ → Prop} {others : List γ} (pairs : List.Forall₂ R items results)
    (later : List.Forall₂ S results others)
    (through : ∀ a ∈ items, ∀ b, ∀ c ∈ others, R a b → S b c → T a c) : List.Forall₂ T items others := by
  induction pairs generalizing others with
  | nil =>
    cases later
    exact .nil
  | cons first _ ih =>
    cases later with
    | cons second rest =>
      constructor
      · exact through _ (by simp) _ _ (by simp) first second
      · exact ih rest fun a there b c present => through a (by simp [there]) b c (by simp [present])

/-- Related lists agree on what related elements agree on. -/
theorem map_eq_map {f : α → γ} {g : β → γ} (pairs : List.Forall₂ R items results)
    (same : ∀ a b, R a b → f a = g b) : items.map f = results.map g := by
  induction pairs with
  | nil => rfl
  | cons first _ ih => rw [List.map_cons, List.map_cons, same _ _ first, ih]

end

/-- Only what the items are turned into matters. -/
theorem mapM_congr {f g : α → Except ε β} {items : List α} (same : ∀ a ∈ items, f a = g a) :
    items.mapM f = items.mapM g := by
  induction items with
  | nil => rfl
  | cons a rest ih =>
    rw [List.mapM_cons, List.mapM_cons, same a (by simp), ih fun b present => same b (by simp [present])]

end Library.Outcome
