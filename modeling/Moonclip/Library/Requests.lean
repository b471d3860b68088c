import Moonclip.Library.Effect

/-! Requests to a far side over a line that may lose them or their answers, and asking
again while the failure is worth it. Requests, answers, errors and far sides are arbitrary. -/
namespace Library.Requests
open Library.Effect

variable {ρ α β γ ε σ : Type}

/-- What the far side has become, and what was asked of it so far. -/
structure Session (ρ β : Type) where
  far : β
  sent : List ρ

/-- One request, whose fate is up to the far side, the line and how many went before. -/
def ask (fate : Nat → ρ → β → β × α) (r : ρ) : EStateM ε (Session ρ β) α := fun s =>
  let (far, answer) := fate s.sent.length r s.far
  .ok answer ⟨far, s.sent ++ [r]⟩

/-- Up to so many times more, while the failure is worth it. -/
def retrying (worth : ε → Bool) (act : EStateM ε σ α) : Nat → EStateM ε σ α
  | 0 => act
  | attempts + 1 => fun s =>
    match act s with
    | .ok a s' => .ok a s'
    | .error e s' => if worth e then retrying worth act attempts s' else .error e s'

/-- What is done about a failure; it is the failure of the whole either way. -/
def cleaningUp (act : EStateM ε σ α) (cleanUp : EStateM ε σ γ) : EStateM ε σ α := fun s =>
  match act s with
  | .ok a s' => .ok a s'
  | .error e s' => .error e (finalState cleanUp s')

section
variable {worth : ε → Bool} {act : EStateM ε σ α} {pre : σ → Prop} {post : α → σ → Prop}
  {fail : ε → σ → Prop}

/-- What every attempt that fails leaves in place is there for the next. -/
theorem retrying_spec {attempts : Nat} (one : Triple pre act post fail)
    (again : ∀ e s, worth e = true → fail e s → pre s) :
    Triple pre (retrying worth act attempts) post fail := by
  induction attempts with
  | zero => exact one
  | succ attempts ih =>
    intro s start
    have outcome := one s start
    unfold retrying
    cases ran : act s with
    | ok a s' =>
      rw [ran] at outcome
      exact outcome
    | error e s' =>
      rw [ran] at outcome
      by_cases retry : worth e = true
      · simp only [retry, if_true]
        exact ih s' (again e s' retry outcome)
      · simp only [retry]
        exact outcome

theorem cleaningUp_spec {cleanUp : EStateM ε σ γ} {fail' : ε → σ → Prop} (spec : Triple pre act post fail)
    (cleans : ∀ e, Triple (fail e) cleanUp (fun _ => fail' e) fun _ => fail' e) :
    Triple pre (cleaningUp act cleanUp) post fail' := by
  intro s start
  have outcome := spec s start
  unfold cleaningUp
  cases ran : act s with
  | ok a s' =>
    rw [ran] at outcome
    exact outcome
  | error e s' =>
    rw [ran] at outcome
    exact (cleans e).final outcome

end

/-- Run from a state that satisfies `pre`, the action returns, as `post` says. -/
def Returns (pre : σ → Prop) (act : EStateM ε σ α) (post : α → σ → Prop) : Prop :=
  ∀ s, pre s → ∃ a s', act s = .ok a s' ∧ post a s'

namespace Returns
variable {worth : ε → Bool} {act : EStateM ε σ α} {pre pre' : σ → Prop} {post post' : α → σ → Prop}

theorem pure {a : α} (done : ∀ s, pre s → post a s) : Returns pre (Pure.pure a : EStateM ε σ α) post :=
  fun s start => ⟨a, s, rfl, done s start⟩

theorem bind (mid : γ → σ → Prop) {first : EStateM ε σ γ} {rest : γ → EStateM ε σ α}
    (one : Returns pre first mid)
    (two : ∀ c, Returns (mid c) (rest c) post) : Returns pre (first >>= rest) post := by
  intro s start
  obtain ⟨c, s', ran, half⟩ := one s start
  obtain ⟨a, s'', ran', done⟩ := two c s' half
  exact ⟨a, s'', bind_eq_ok.mpr ⟨c, s', ran, ran'⟩, done⟩

theorem returning_bind {r : Except ε γ} {c : γ} {rest : γ → EStateM ε σ α} (known : r = .ok c)
    (spec : Returns pre (rest c) post) : Returns pre (Effect.returning r >>= rest) post := by
  subst known
  exact spec

theorem weaken (pre' : σ → Prop) (spec : Returns pre' act post') (enough : ∀ s, pre s → pre' s)
    (returns : ∀ a s, post' a s → post a s) : Returns pre act post := by
  intro s start
  obtain ⟨a, s', ran, done⟩ := spec s (enough s start)
  exact ⟨a, s', ran, returns a s' done⟩

theorem cleaningUp {cleanUp : EStateM ε σ γ} (spec : Returns pre act post) :
    Returns pre (cleaningUp act cleanUp) post := by
  intro s start
  obtain ⟨a, s', ran, done⟩ := spec s start
  refine ⟨a, s', ?_, done⟩
  rw [Requests.cleaningUp, ran]

/-- Where an attempt that is not served changes nothing that matters and is worth
another, one that is served soon enough is enough. -/
theorem retrying {attempts : Nat} {served : Nat → Prop} {clock : σ → Nat}
    (serves : Returns (fun s => pre s ∧ served (clock s)) act post)
    (idles : ∀ s, pre s → ¬ served (clock s) →
      ∃ e s', act s = .error e s' ∧ worth e = true ∧ pre s' ∧ clock s' = clock s + 1) :
    Returns (fun s => pre s ∧ ∃ k ≤ attempts, served (clock s + k)) (retrying worth act attempts) post := by
  induction attempts with
  | zero =>
    rintro s ⟨start, k, bound, now⟩
    obtain rfl := Nat.le_zero.mp bound
    exact serves s ⟨start, now⟩
  | succ attempts ih =>
    rintro s ⟨start, k, bound, later⟩
    unfold Requests.retrying
    by_cases now : served (clock s)
    · obtain ⟨a, s', ran, done⟩ := serves s ⟨start, now⟩
      exact ⟨a, s', by rw [ran], done⟩
    · obtain ⟨e, s', ran, retry, kept, ticked⟩ := idles s start now
      rw [ran]
      simp only [retry, if_true]
      cases k with
      | zero => exact absurd later now
      | succ k =>
        refine ih s' ⟨kept, k, by omega, ?_⟩
        rw [ticked]
        rwa [Nat.add_assoc, Nat.add_comm 1 k]

end Returns

theorem ask_spec {fate : Nat → ρ → β → β × α} {r : ρ} {pre : Session ρ β → Prop}
    {post : α → Session ρ β → Prop}
    {fail : ε → Session ρ β → Prop}
    (each : ∀ s, pre s → ∀ far answer, fate s.sent.length r s.far = (far, answer) →
      post answer ⟨far, s.sent ++ [r]⟩) : Triple pre (ask fate r) post fail := by
  intro s start
  exact each s start _ _ rfl

theorem bind_ask {fate : Nat → ρ → β → β × α} {r : ρ} {rest : α → EStateM ε (Session ρ β) γ}
    {s : Session ρ β} :
    (ask fate r >>= rest) s =
      rest (fate s.sent.length r s.far).2 ⟨(fate s.sent.length r s.far).1, s.sent ++ [r]⟩ :=
  rfl

end Library.Requests
