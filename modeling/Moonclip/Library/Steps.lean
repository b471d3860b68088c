import Mathlib.Data.Option.Basic

/-! Systems that take one event after another: what is reached by steps that all
meet a condition, and what such steps keep. States and events are arbitrary. -/
namespace Library.Steps

variable {σ α : Type} {step : σ → α → Option σ} {allowed : σ → α → Prop} {s t u : σ} {a : α}

/-- Reached from `s` by steps each of which was allowed where it was taken. -/
inductive Reaches (step : σ → α → Option σ) (allowed : σ → α → Prop) (s : σ) : σ → Prop where
  | refl : Reaches step allowed s s
  | next (t u : σ) (a : α) (before : Reaches step allowed s t) (meets : allowed t a)
      (taken : step t a = some u) :
      Reaches step allowed s u

namespace Reaches

/-- What every allowed step keeps holds wherever allowed steps lead. -/
theorem invariant (run : Reaches step allowed s t) (inv : σ → Prop) (initial : inv s)
    (keeps : ∀ t a u, inv t → allowed t a → step t a = some u → inv u) : inv t := by
  induction run with
  | refl => exact initial
  | next t u a _ meets taken ih => exact keeps t a u ih meets taken

end Reaches

/-- Take the events one by one, each only where it is allowed. -/
def run (step : σ → α → Option σ) (allowed : σ → α → Bool) : σ → List α → Option σ
  | s, [] => some s
  | s, a :: rest => if allowed s a then (step s a).bind fun t => run step allowed t rest else none

theorem reaches_of_run {permits : σ → α → Bool} {events : List α} (before : Reaches step allowed s t)
    (sound : ∀ t a, permits t a = true → allowed t a) (ran : run step permits t events = some u) :
    Reaches step allowed s u := by
  induction events generalizing t with
  | nil =>
    obtain rfl : t = u := by simpa [run] using ran
    exact before
  | cons a rest ih =>
    unfold run at ran
    split at ran
    · rename_i permitted
      obtain ⟨mid, taken, later⟩ := Option.bind_eq_some_iff.mp ran
      exact ih (.next t mid a before (sound t a permitted) taken) later
    · contradiction

end Library.Steps
