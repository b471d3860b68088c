/-! Specifications of effects: an action that may raise, run from a state with a
precondition, ends in one of two postconditions. State, errors and values are
arbitrary. -/
namespace Library.Effect

variable {ε σ α β : Type}

/-- Run from a state that satisfies `pre`, the action returns as `post` says or
raises as `fail` says. -/
def Triple (pre : σ → Prop) (act : EStateM ε σ α) (post : α → σ → Prop)
    (fail : ε → σ → Prop) : Prop :=
  ∀ s, pre s → match act s with
    | .ok a s' => post a s'
    | .error e s' => fail e s'

/-- The state an action leaves, whether it returned or raised. -/
def finalState (act : EStateM ε σ α) (s : σ) : σ :=
  match act s with
  | .ok _ s' => s'
  | .error _ s' => s'

/-- A computation that reads nothing and changes nothing. -/
def returning : Except ε α → EStateM ε σ α
  | .ok a => pure a
  | .error e => throw e

/-- Run `act` between `acquire` and `release`; the release happens either way. -/
def bracket (acquire release : σ → σ) (act : EStateM ε σ α) : EStateM ε σ α := fun s =>
  match act (acquire s) with
  | .ok a s' => .ok a (release s')
  | .error e s' => .error e (release s')

/-- Run `act` and go on whatever became of it. -/
def ignoring (act : EStateM ε σ α) : EStateM ε σ Unit := fun s => .ok () (finalState act s)

/-- Whether an action returns. -/
def returns (act : EStateM ε σ α) (s : σ) : Bool :=
  match act s with
  | .ok _ _ => true
  | .error _ _ => false

section
variable {act : EStateM ε σ α} {a : α} {s s' : σ}

theorem exists_ok {act : EStateM ε σ α} (returned : returns act s = true) :
    ∃ a, act s = .ok a (finalState act s) := by
  unfold returns at returned
  unfold finalState
  cases ran : act s with
  | ok a s' => exact ⟨a, rfl⟩
  | error e s' => simp [ran] at returned

theorem exists_error {act : EStateM ε σ α} (raised : returns act s = false) :
    ∃ e, act s = .error e (finalState act s) := by
  unfold returns at raised
  unfold finalState
  cases ran : act s with
  | ok a s' => simp [ran] at raised
  | error e s' => exact ⟨e, rfl⟩

/-- What an action returns, if it does. -/
def value? (act : EStateM ε σ α) (s : σ) : Option α :=
  match act s with
  | .ok a _ => some a
  | .error _ _ => none

theorem ok_of_value? {act : EStateM ε σ α} (returned : value? act s = some a) :
    act s = .ok a (finalState act s) := by
  unfold value? at returned
  unfold finalState
  cases ran : act s with
  | ok a' s' =>
    rw [ran] at returned
    obtain rfl := Option.some.inj returned
    rfl
  | error e s' => simp [ran] at returned

theorem ok_finalState {act : EStateM ε σ Unit} (returned : returns act s = true) :
    act s = .ok () (finalState act s) := by
  obtain ⟨_, ran⟩ := exists_ok returned
  exact ran

/-- A sequence that returned went through a middle state. -/
theorem bind_eq_ok {first : EStateM ε σ β} {rest : β → EStateM ε σ α} :
    (first >>= rest) s = .ok a s' ↔ ∃ b mid, first s = .ok b mid ∧ rest b mid = .ok a s' := by
  change EStateM.bind first rest s = _ ↔ _
  unfold EStateM.bind
  constructor
  · intro returned
    cases ran : first s with
    | ok b mid => exact ⟨b, mid, rfl, by rwa [ran] at returned⟩
    | error e mid => rw [ran] at returned; contradiction
  · rintro ⟨b, mid, ran, returned⟩
    rw [ran]
    exact returned

theorem pure_eq_ok {b : α} : (Pure.pure b : EStateM ε σ α) s = .ok a s' ↔ b = a ∧ s = s' := by
  simp [Pure.pure, EStateM.pure]

theorem get_eq_ok {read : σ} : (MonadState.get : EStateM ε σ σ) s = .ok read s' ↔
    s = read ∧ s = s' := by
  change EStateM.Result.ok s s = _ ↔ _
  rw [EStateM.Result.ok.injEq]

theorem get_bind_apply {rest : σ → EStateM ε σ α} : (MonadState.get >>= rest) s = rest s s := rfl

theorem modify_eq_ok {f : σ → σ} {u : PUnit} :
    (modify f : EStateM ε σ PUnit) s = .ok u s' ↔ f s = s' := by
  change EStateM.Result.ok PUnit.unit (f s) = _ ↔ _
  rw [EStateM.Result.ok.injEq]
  exact and_iff_right rfl

theorem returning_eq_ok {r : Except ε α} :
    (returning r : EStateM ε σ α) s = .ok a s' ↔ r = .ok a ∧ s = s' := by
  cases r with
  | ok b => simp [returning, pure_eq_ok]
  | error e =>
    constructor
    · intro returned
      change EStateM.Result.error e s = _ at returned
      contradiction
    · rintro ⟨returned, -⟩
      contradiction

end

namespace Triple

variable {pre : σ → Prop} {post post' : α → σ → Prop} {fail fail' : ε → σ → Prop}
  {act : EStateM ε σ α}

theorem ok {s s' : σ} (spec : Triple pre act post fail) (start : pre s)
    (returned : act s = .ok a s') : post a s' := by
  have outcome := spec s start
  rwa [returned] at outcome

theorem final {s : σ} {P : σ → Prop} (spec : Triple pre act (fun _ => P) fun _ => P)
    (start : pre s) : P (finalState act s) := by
  have outcome := spec s start
  unfold finalState
  split <;> rename_i returned <;> rwa [returned] at outcome

/-- A fact of every state the action may start in may be used of the action. -/
theorem learn {P : Prop} (known : ∀ s, pre s → P) (spec : P → Triple pre act post fail) :
    Triple pre act post fail :=
  fun s start => spec (known s start) s start

theorem pure (done : ∀ s, pre s → post a s) : Triple pre (Pure.pure a) post fail :=
  fun s start => done s start

theorem throw (failed : ∀ s, pre s → fail e s) :
    Triple pre (MonadExcept.throw e : EStateM ε σ α) post fail :=
  fun s start => failed s start

theorem bind (mid : β → σ → Prop) {first : EStateM ε σ β} {rest : β → EStateM ε σ α}
    (one : Triple pre first mid fail) (two : ∀ b, Triple (mid b) (rest b) post fail) :
    Triple pre (first >>= rest) post fail := by
  intro s start
  have half := one s start
  change match EStateM.bind first rest s with
    | .ok a s' => post a s'
    | .error e s' => fail e s'
  unfold EStateM.bind
  cases ran : first s with
  | ok b s' =>
    rw [ran] at half
    exact two b s' half
  | error e s' =>
    rw [ran] at half
    exact half

theorem weaken (pre' : σ → Prop) (spec : Triple pre' act post' fail') (enough : ∀ s, pre s → pre' s)
    (returns : ∀ a s, post' a s → post a s) (raises : ∀ e s, fail' e s → fail e s) :
    Triple pre act post fail := by
  intro s start
  have outcome := spec s (enough s start)
  cases ran : act s with
  | ok a s' =>
    rw [ran] at outcome
    exact returns a s' outcome
  | error e s' =>
    rw [ran] at outcome
    exact raises e s' outcome

/-- What is known of the state stays known of the value read. -/
theorem get_bind {rest : σ → EStateM ε σ α}
    (two : ∀ s, Triple (fun s' => s' = s ∧ pre s) (rest s) post fail) :
    Triple pre (MonadState.get >>= rest) post fail :=
  fun s start => two s s ⟨rfl, start⟩

theorem modified {f : σ → σ} {post : PUnit → σ → Prop} (done : ∀ s, pre s → post ⟨⟩ (f s)) :
    Triple pre (modify f : EStateM ε σ PUnit) post fail :=
  fun s start => done s start

theorem returning {r : Except ε α} (returns : ∀ a s, r = .ok a → pre s → post a s)
    (raises : ∀ e s, r = .error e → pre s → fail e s) :
    Triple pre (Effect.returning r) post fail := by
  intro s start
  cases r with
  | ok a => exact returns a s rfl start
  | error e => exact raises e s rfl start

theorem returning_ok {r : Except ε β} {b : β} {rest : β → EStateM ε σ α} (known : r = .ok b)
    (spec : Triple pre (rest b) post fail) : Triple pre (Effect.returning r >>= rest) post fail := by
  subst known
  exact spec

theorem returning_error {r : Except ε β} {e : ε} {rest : β → EStateM ε σ α} (known : r = .error e)
    (failed : ∀ s, pre s → fail e s) : Triple pre (Effect.returning r >>= rest) post fail := by
  subst known
  exact failed

/-- What is read or computed along the way disturbs no invariant. -/
theorem get_keep {rest : σ → EStateM ε σ α} (spec : ∀ s, Triple pre (rest s) post fail) :
    Triple pre (MonadState.get >>= rest) post fail :=
  fun s start => spec s s start

theorem returning_keep {r : Except ε β} {rest : β → EStateM ε σ α} (spec : ∀ b, Triple pre (rest b) post fail)
    (raises : ∀ e s, pre s → fail e s) : Triple pre (Effect.returning r >>= rest) post fail := by
  cases r with
  | ok b => exact spec b
  | error e => exact raises e

theorem modify_bind (mid : σ → Prop) {f : σ → σ} {rest : PUnit → EStateM ε σ α}
    (done : ∀ s, pre s → mid (f s))
    (spec : ∀ u, Triple mid (rest u) post fail) : Triple pre (modify f >>= rest) post fail :=
  fun s start => spec ⟨⟩ (f s) (done s start)

/-- An action that starts from one state is known by that state. -/
theorem get_bind_of {s₀ : σ} {rest : σ → EStateM ε σ α}
    (spec : Triple (fun s => s = s₀) (rest s₀) post fail) :
    Triple (fun s => s = s₀) (MonadState.get >>= rest) post fail := by
  rintro s rfl
  exact spec s rfl

/-- Two things known of one action are known together. -/
theorem both {pre' : σ → Prop} {post' : α → σ → Prop} {fail' : ε → σ → Prop}
    (one : Triple pre act post fail) (two : Triple pre' act post' fail') :
    Triple (fun s => pre s ∧ pre' s) act (fun a s => post a s ∧ post' a s)
      fun e s => fail e s ∧ fail' e s := by
  intro s start
  have first := one s start.1
  have second := two s start.2
  cases ran : act s with
  | ok a s' =>
    rw [ran] at first second
    exact ⟨first, second⟩
  | error e s' =>
    rw [ran] at first second
    exact ⟨first, second⟩

/-- A loop whose invariant knows how far it has come. -/
theorem forM_progress {inv : List β → σ → Prop} {body : β → EStateM ε σ PUnit} {items : List β}
    {fail : ε → σ → Prop} (turn : ∀ done b rest, items = done ++ b :: rest →
      Triple (inv done) (body b) (fun _ => inv (done ++ [b])) fail) :
    Triple (inv []) (items.forM body) (fun _ => inv items) fail := by
  suffices ∀ done rest, items = done ++ rest →
      Triple (inv done) (rest.forM body) (fun _ => inv items) fail from this [] items rfl
  intro done rest split
  induction rest generalizing done with
  | nil =>
    obtain rfl : items = done := by simpa using split
    exact pure fun _ held => held
  | cons b rest ih =>
    change Triple (inv done) (body b >>= fun _ => rest.forM body) _ fail
    exact bind _ (turn done b rest split) fun _ => ih (done ++ [b]) (by simpa using split)

/-- An invariant of every turn is an invariant of the loop. -/
theorem forM {inv : σ → Prop} {body : β → EStateM ε σ PUnit} {items : List β}
    {fail : ε → σ → Prop} (turn : ∀ b ∈ items, Triple inv (body b) (fun _ => inv) fail) :
    Triple inv (items.forM body) (fun _ => inv) fail :=
  @forM_progress _ _ _ (fun _ => inv) _ _ _ fun _ b _ split => turn b (by simp [split])

/-- Going on whatever happens, only what either ending leaves is known. -/
theorem ignoring {after : σ → Prop} (spec : Triple pre act (fun _ => after) fun _ => after) :
    Triple pre (Effect.ignoring act) (fun _ => after) fail :=
  fun _ start => spec.final start

/-- What neither the acquisition nor the release disturbs, the bracket keeps. -/
theorem bracket {acquire release : σ → σ} (spec : Triple pre act post fail)
    (enter : ∀ s, pre s → pre (acquire s)) (leave : ∀ a s, post a s → post a (release s))
    (abort : ∀ e s, fail e s → fail e (release s)) :
    Triple pre (Effect.bracket acquire release act) post fail := by
  intro s start
  have outcome := spec _ (enter s start)
  unfold Effect.bracket
  cases ran : act (acquire s) with
  | ok a s' =>
    rw [ran] at outcome
    exact leave a s' outcome
  | error e s' =>
    rw [ran] at outcome
    exact abort e s' outcome

end Triple
end Library.Effect
