import Moonclip.Library.Outcome

/-! Two computations that never contradict each other: either may fail, and where both
return they return the same. -/
namespace Library.Outcome

variable {ε α β : Type} {one two : Except ε α} {f g : α → Except ε β}

def Agrees (one two : Except ε α) : Prop := ∀ a b, one = .ok a → two = .ok b → b = a

namespace Agrees

theorem refl : Agrees one one := by
  intro a b first second
  exact Except.ok.inj (second.symm.trans first)

theorem bind (first : Agrees one two) (rest : ∀ a, one = .ok a → two = .ok a → Agrees (f a) (g a)) :
    Agrees (one >>= f) (two >>= g) := by
  intro b c left right
  obtain ⟨a, returned, left⟩ := bind_eq_ok.mp left
  obtain ⟨a', again, right⟩ := bind_eq_ok.mp right
  obtain rfl := first a a' returned again
  exact rest a' returned again b c left right

/-- The items are the same, and so is what each one comes to. -/
theorem mapM {items : List α} (each : ∀ a ∈ items, Agrees (f a) (g a)) :
    Agrees (items.mapM f) (items.mapM g) := by
  intro bs cs left right
  rw [mapM_eq_ok] at left right
  induction left generalizing cs with
  | nil =>
    cases right
    rfl
  | cons first others ih =>
    cases right with
    | cons first' others' =>
      rw [each _ (by simp) _ _ first first', ih (fun a there => each a (by simp [there])) _ others']

end Agrees
end Library.Outcome
