import Moonclip.Library.Floating
import Mathlib.Algebra.Order.Field.Basic
import Mathlib.Tactic.Linarith

/-! Rounding to the points of an increasing sequence, and to the magnitudes a
floating-point format steps through. -/
namespace Library.Rounding
open Library.Floating

section
variable {K : Type} [Field K] [LinearOrder K] [IsStrictOrderedRing K]

/-- `c` is the place of a point nearest to `x`. Halfway between two points, `stays` says
of the lower one whether it is taken. -/
structure Rounds (grid : ℕ → K) (stays : ℕ → Prop) (x : K) (c : ℕ) : Prop where
  below : ∀ p, c = p + 1 → grid p + grid c ≤ 2 * x ∧ (grid p + grid c = 2 * x → ¬ stays p)
  above : 2 * x ≤ grid c + grid (c + 1) ∧ (2 * x = grid c + grid (c + 1) → stays c)

variable {grid : ℕ → K} {stays : ℕ → Prop} {x y : K} {c d p : ℕ}

theorem rounds_down (increasing : StrictMono grid) (low : grid c ≤ x)
    (half : 2 * x ≤ grid c + grid (c + 1)) (tie : 2 * x = grid c + grid (c + 1) → stays c) :
    Rounds grid stays x c := by
  constructor
  · rintro p rfl
    have less := increasing (Nat.lt_succ_self p)
    constructor
    · linarith
    · intro same
      linarith
  · exact ⟨half, tie⟩

theorem rounds_up (increasing : StrictMono grid) (high : x ≤ grid (c + 1))
    (half : grid c + grid (c + 1) ≤ 2 * x) (tie : grid c + grid (c + 1) = 2 * x → ¬ stays c) :
    Rounds grid stays x (c + 1) := by
  constructor
  · intro p next
    obtain rfl : c = p := Nat.succ_injective next
    exact ⟨half, tie⟩
  · have less := increasing (Nat.lt_succ_self (c + 1))
    constructor
    · linarith
    · intro same
      linarith

theorem rounds_self (increasing : StrictMono grid) : Rounds grid stays (grid c) c := by
  have less := increasing (Nat.lt_succ_self c)
  apply rounds_down increasing (le_refl _)
  · linarith
  · intro same
    linarith

namespace Rounds

/-- What is rounded up past `p` is past the middle of the gap above `p`. -/
theorem lt_iff (increasing : StrictMono grid) (rounds : Rounds grid stays x c) :
    p < c ↔ grid p + grid (p + 1) ≤ 2 * x ∧ (grid p + grid (p + 1) = 2 * x → ¬ stays p) := by
  constructor
  · intro less
    obtain ⟨q, rfl⟩ := Nat.exists_eq_add_of_lt less
    obtain ⟨half, tie⟩ := rounds.below (p + q) rfl
    have low : grid p ≤ grid (p + q) := increasing.monotone (by omega)
    have high : grid (p + 1) ≤ grid (p + q + 1) := increasing.monotone (by omega)
    constructor
    · linarith
    · intro same
      have lower : grid (p + q) = grid p := by linarith
      have zero : q = 0 := by
        have := increasing.injective lower
        omega
      subst zero
      exact tie same
  · rintro ⟨half, tie⟩
    by_contra less
    have low : grid c ≤ grid p := increasing.monotone (by omega)
    have high : grid (c + 1) ≤ grid (p + 1) := increasing.monotone (by omega)
    obtain ⟨under, stay⟩ := rounds.above
    have same : grid p = grid c := by linarith
    obtain rfl := increasing.injective same
    exact tie (by linarith) (stay (by linarith))

/-- Rounding keeps the order, the rule for ties being one. -/
theorem mono (increasing : StrictMono grid) (one : Rounds grid stays x c)
    (two : Rounds grid stays y d) (le : x ≤ y) : c ≤ d := by
  by_contra more
  obtain ⟨half, tie⟩ := (one.lt_iff increasing).mp (not_le.mp more)
  obtain ⟨under, stay⟩ := two.above
  exact tie (by linarith) (stay (by linarith))

theorem unique (increasing : StrictMono grid) (one : Rounds grid stays x c)
    (two : Rounds grid stays x d) : c = d :=
  Nat.le_antisymm (one.mono increasing two (le_refl x)) (two.mono increasing one (le_refl x))

/-- A point too far up for the range is replaced by its end; the rest of the range is
farther. -/
theorem clipped_nearest (increasing : StrictMono grid) (rounds : Rounds grid stays x c) {top : ℕ}
    (within : d ≤ top) : |x - grid (min c top)| ≤ |x - grid d| := by
  rcases Nat.lt_trichotomy d (min c top) with less | same | more
  · obtain ⟨half, -⟩ := (rounds.lt_iff increasing).mp (lt_of_lt_of_le less (Nat.min_le_left c top))
    obtain ⟨q, next⟩ := Nat.exists_eq_add_of_lt less
    obtain ⟨middle, -⟩ := (rounds.lt_iff increasing).mp (show d + q < c by omega)
    have low : grid d ≤ grid (d + q) := increasing.monotone (by omega)
    rw [← next] at middle
    apply abs_le.mpr
    constructor
    · linarith [le_abs_self (x - grid d)]
    · have order : grid d < grid (min c top) := increasing less
      linarith [le_abs_self (x - grid d)]
  · rw [same]
  · have here : min c top = c := by omega
    rw [here] at more ⊢
    obtain ⟨half, -⟩ := rounds.above
    have high : grid (c + 1) ≤ grid d := increasing.monotone more
    have order : grid c < grid (c + 1) := increasing (Nat.lt_succ_self c)
    apply abs_le.mpr
    constructor
    · linarith [neg_abs_le (x - grid d)]
    · linarith [neg_abs_le (x - grid d)]

theorem nearest (increasing : StrictMono grid) (rounds : Rounds grid stays x c) :
    |x - grid c| ≤ |x - grid d| := by
  have clipped := rounds.clipped_nearest increasing (Nat.le_max_right c d)
  rwa [Nat.min_eq_left (Nat.le_max_left c d)] at clipped

/-- Two points at one distance are neighbours, and the rule decided. -/
theorem tied (increasing : StrictMono grid) (rounds : Rounds grid stays x c) (other : d ≠ c)
    (same : |x - grid c| = |x - grid d|) : d = c + 1 ∧ stays c ∨ c = d + 1 ∧ ¬ stays d := by
  rcases Nat.lt_or_gt_of_ne other with less | more
  · obtain ⟨q, rfl⟩ := Nat.exists_eq_add_of_lt less
    obtain ⟨half, tie⟩ := rounds.below (d + q) rfl
    have order := increasing less
    have next : grid d ≤ grid (d + q) := increasing.monotone (by omega)
    have middle : grid d + grid (d + q + 1) = 2 * x := by
      rcases abs_eq_abs.mp same with equal | opposite
      · linarith
      · linarith
    have here : d = d + q := increasing.injective (le_antisymm next (by linarith))
    obtain rfl : q = 0 := by omega
    exact .inr ⟨rfl, tie middle⟩
  · obtain ⟨half, tie⟩ := rounds.above
    have order := increasing more
    have next : grid (c + 1) ≤ grid d := increasing.monotone more
    have middle : grid c + grid d = 2 * x := by
      rcases abs_eq_abs.mp same with equal | opposite
      · linarith
      · linarith
    have here : c + 1 = d := increasing.injective (le_antisymm next (by linarith))
    rw [← here] at middle
    exact .inl ⟨here.symm, tie middle.symm⟩

end Rounds
end

end Library.Rounding

namespace Library.Floating
open Library.Rounding

theorem scaled_le {m n : Nat} {z : Int} : scaled m z ≤ scaled n z ↔ m ≤ n := by
  unfold scaled
  rw [mul_le_mul_iff_left₀ (zpow_pos (by norm_num) z)]
  exact Nat.cast_le

theorem scaled_inj {m n : Nat} {z : Int} : scaled m z = scaled n z ↔ m = n := by
  rw [le_antisymm_iff, scaled_le, scaled_le, ← Nat.le_antisymm_iff]

theorem scaled_lt {m n : Nat} {z : Int} : scaled m z < scaled n z ↔ m < n := by
  rw [lt_iff_not_ge, scaled_le, Nat.not_le]

theorem scaled_add (m n : Nat) (z : Int) : scaled m z + scaled n z = scaled (m + n) z := by
  unfold scaled
  push_cast
  ring

theorem scaled_two (n : Nat) (z : Int) : 2 * scaled n z = scaled (2 * n) z := by
  unfold scaled
  push_cast
  ring

namespace Format
variable {f : Format} {e q : Nat}

/-- What a pattern without its sign stands for, were there no infinities. -/
def magnitude (f : Format) (code : Nat) : Rat :=
  scaled (f.significand ⟨false, code / 2 ^ f.mantBits, code % 2 ^ f.mantBits⟩)
    (f.place ⟨false, code / 2 ^ f.mantBits, code % 2 ^ f.mantBits⟩)

/-- Steps of one size up to the next power of two; the subnormals step on below the first. -/
theorem magnitude_eq (normal : 1 ≤ e) (most : q ≤ 2 ^ (f.mantBits + 1)) (least : e = 1 ∨ 2 ^ f.mantBits ≤ q) :
    f.magnitude ((e - 1) * 2 ^ f.mantBits + q) = scaled q (e - f.bias - f.mantBits) := by
  have positive : 0 < 2 ^ f.mantBits := Nat.two_pow_pos _
  rw [Nat.pow_succ] at most
  obtain ⟨e, rfl⟩ := Nat.exists_eq_add_of_le' normal
  rw [Nat.add_sub_cancel]
  rcases Nat.lt_or_ge q (2 ^ f.mantBits) with subnormal | large
  · obtain rfl : e = 0 := by omega
    rw [magnitude, Nat.zero_mul, Nat.zero_add, Nat.div_eq_of_lt subnormal, Nat.mod_eq_of_lt subnormal]
    simp [significand, place]
  · obtain ⟨m, rfl⟩ := Nat.exists_eq_add_of_le large
    rcases Nat.lt_or_ge m (2 ^ f.mantBits) with small | whole
    · have code : e * 2 ^ f.mantBits + (2 ^ f.mantBits + m) = m + (e + 1) * 2 ^ f.mantBits := by
        rw [Nat.succ_mul]
        omega
      rw [code, magnitude, Nat.add_mul_div_right _ _ positive, Nat.div_eq_of_lt small, Nat.zero_add,
        Nat.add_mul_mod_self_right, Nat.mod_eq_of_lt small]
      simp [significand, place]
    · obtain rfl : m = 2 ^ f.mantBits := by omega
      have code : e * 2 ^ f.mantBits + (2 ^ f.mantBits + 2 ^ f.mantBits) = 0 + (e + 2) * 2 ^ f.mantBits := by
        rw [Nat.add_mul]
        omega
      have twice : 2 ^ f.mantBits + 2 ^ f.mantBits = 2 ^ f.mantBits * 2 ^ 1 := by omega
      have next : ((e + 1 : Nat) : Int) - f.bias - f.mantBits =
          ((e + 2 : Nat) : Int) - f.bias - f.mantBits - (1 : Nat) := by
        push_cast
        ring
      rw [code, magnitude, Nat.add_mul_div_right _ _ positive, Nat.zero_div, Nat.zero_add,
        Nat.add_mul_mod_self_right, Nat.zero_mod, next, twice, scaled_shift]
      simp [significand, place]

/-- Every pattern is a step in some range. -/
theorem exists_step (f : Format) (code : Nat) : ∃ e q, 1 ≤ e ∧ q < 2 ^ (f.mantBits + 1) ∧
    (e = 1 ∨ 2 ^ f.mantBits ≤ q) ∧ code = (e - 1) * 2 ^ f.mantBits + q := by
  have positive : 0 < 2 ^ f.mantBits := Nat.two_pow_pos _
  rcases Nat.lt_or_ge code (2 ^ f.mantBits) with subnormal | large
  · refine ⟨1, code, Nat.le_refl 1, ?_, .inl rfl, by simp⟩
    rw [Nat.pow_succ]
    omega
  · have parts := Nat.div_add_mod' code (2 ^ f.mantBits)
    have small := Nat.mod_lt code positive
    have some_ : 1 ≤ code / 2 ^ f.mantBits := (Nat.one_le_div_iff positive).mpr large
    obtain ⟨e, exponent⟩ := Nat.exists_eq_add_of_le' some_
    rw [exponent, Nat.succ_mul] at parts
    refine ⟨e + 1, 2 ^ f.mantBits + code % 2 ^ f.mantBits, by omega, ?_, .inr (Nat.le_add_right _ _), ?_⟩
    · rw [Nat.pow_succ]
      omega
    · rw [Nat.add_sub_cancel]
      omega

theorem magnitude_strictMono : StrictMono f.magnitude := by
  apply strictMono_nat_of_lt_succ
  intro code
  obtain ⟨e, q, normal, most, least, rfl⟩ := f.exists_step code
  rw [Nat.add_assoc, magnitude_eq normal (Nat.le_of_lt most) least,
    magnitude_eq normal most (least.imp_right fun large => Nat.le_succ_of_le large), scaled_lt]
  exact Nat.lt_succ_self q

theorem magnitude_zero : f.magnitude 0 = 0 := by
  simp [magnitude, significand, scaled]

theorem magnitude_nonneg {code : Nat} : 0 ≤ f.magnitude code := by
  rw [← magnitude_zero (f := f)]
  exact magnitude_strictMono.monotone (Nat.zero_le code)

/-- So many whole steps and a rest are rounded by the rest. -/
theorem rounds_quotient {stays : Nat → Prop} [DecidablePred stays] {unit : Rat} {n step code : Nat}
    (positive : 0 < unit) (wide : 0 < step)
    (lower : f.magnitude code = (n / step * step : Nat) * unit)
    (upper : f.magnitude (code + 1) = (n / step * step + step : Nat) * unit) :
    Rounds f.magnitude stays (n * unit) (code +
      if step < 2 * (n % step) ∨ step = 2 * (n % step) ∧ ¬ stays code then 1 else 0) := by
  have parts := Nat.div_add_mod' n step
  have small := Nat.mod_lt n wide
  have order : ∀ {a b : Nat}, (a : Rat) * unit ≤ b * unit ↔ a ≤ b := by
    intro a b
    rw [mul_le_mul_iff_left₀ positive]
    exact Nat.cast_le
  have same : ∀ {a b : Nat}, (a : Rat) * unit = b * unit ↔ a = b := by
    intro a b
    rw [le_antisymm_iff, order, order, ← Nat.le_antisymm_iff]
  have sum : f.magnitude code + f.magnitude (code + 1) = (2 * (n / step * step) + step : Nat) * unit := by
    rw [lower, upper]
    push_cast
    ring
  have twice : 2 * (n * unit) = (2 * n : Nat) * unit := by
    push_cast
    ring
  split
  · rename_i up
    apply rounds_up magnitude_strictMono
    · rw [upper, order]
      omega
    · rw [sum, twice, order]
      omega
    · rw [sum, twice, same]
      intro middle
      rcases up with exceeds | ⟨_, leaves⟩
      · omega
      · exact leaves
  · rename_i down
    rw [Nat.add_zero]
    apply rounds_down magnitude_strictMono
    · rw [lower, order]
      omega
    · rw [sum, twice, order]
      omega
    · rw [sum, twice, same]
      intro middle
      by_contra leaves
      exact down (.inr ⟨by omega, leaves⟩)

/-- A significand with `k` places too many is rounded by what it has in them. -/
theorem rounds_shift {stays : Nat → Prop} [DecidablePred stays] {n k : Nat} (normal : 1 ≤ e)
    (most : n / 2 ^ k < 2 ^ (f.mantBits + 1)) (least : e = 1 ∨ 2 ^ f.mantBits ≤ n / 2 ^ k) :
    Rounds f.magnitude stays (scaled n (e - f.bias - f.mantBits - k))
      ((e - 1) * 2 ^ f.mantBits + n / 2 ^ k +
        if 2 ^ k < 2 * (n % 2 ^ k) ∨
          2 ^ k = 2 * (n % 2 ^ k) ∧ ¬ stays ((e - 1) * 2 ^ f.mantBits + n / 2 ^ k) then 1 else 0) := by
  have lower : f.magnitude ((e - 1) * 2 ^ f.mantBits + n / 2 ^ k) =
      scaled (n / 2 ^ k * 2 ^ k) (e - f.bias - f.mantBits - k) := by
    rw [magnitude_eq normal (Nat.le_of_lt most) least, scaled_shift]
  have upper : f.magnitude ((e - 1) * 2 ^ f.mantBits + n / 2 ^ k + 1) =
      scaled (n / 2 ^ k * 2 ^ k + 2 ^ k) (e - f.bias - f.mantBits - k) := by
    rw [Nat.add_assoc, magnitude_eq normal most (least.imp_right fun large => Nat.le_succ_of_le large),
      ← Nat.succ_mul, scaled_shift]
  exact rounds_quotient (zpow_pos (by norm_num) _) (Nat.two_pow_pos k) lower upper

end Format

/-- A magnitude with its sign. -/
def signed (negative : Bool) (x : Rat) : Rat := if negative then -x else x

section
variable {s t : Bool} {x y z : Rat}

@[simp] theorem signed_zero : signed s 0 = 0 := by
  cases s with
  | false => rfl
  | true => exact neg_zero

theorem abs_signed_sub : |signed s x - signed s y| = |x - y| := by
  cases s with
  | false => rfl
  | true =>
    have opposite : signed true x - signed true y = -(x - y) := by
      simp only [signed, if_true]
      ring
    rw [opposite, abs_neg]

theorem abs_signed_sub_other (differ : s ≠ t) (source : 0 ≤ x) (other : 0 ≤ z) :
    |signed s x - signed t z| = x + z := by
  cases s with
  | false =>
    obtain rfl : t = true := by simpa using differ
    simpa [signed] using abs_of_nonneg (add_nonneg source other)
  | true =>
    obtain rfl : t = false := by simpa using differ
    have opposite : signed true x - signed false z = -(x + z) := by
      simp [signed]
      ring
    rw [opposite, abs_neg, abs_of_nonneg (add_nonneg source other)]

theorem abs_sub_le_add (source : 0 ≤ x) (other : 0 ≤ z) : |x - z| ≤ x + z := by
  apply abs_le.mpr
  constructor
  · linarith
  · linarith

/-- What has the other sign is no nearer than what has the same. -/
theorem abs_sub_le_signed (source : 0 ≤ x) (other : 0 ≤ z) : |x - z| ≤ |signed s x - signed t z| := by
  by_cases same : s = t
  · rw [same, abs_signed_sub]
  · rw [abs_signed_sub_other same source other]
    exact abs_sub_le_add source other

/-- As near as what is nearest, it has the same sign or is zero. -/
theorem signed_of_tie (source : 0 ≤ x) (other : 0 ≤ z) (zero : |x - y| ≤ |x - 0|)
    (nearest : |x - y| ≤ |x - z|) (same : |x - y| = |signed s x - signed t z|) :
    signed t z = signed s z ∧ |x - y| = |x - z| := by
  by_cases sign : s = t
  · subst sign
    exact ⟨rfl, same.trans abs_signed_sub⟩
  · rw [abs_signed_sub_other sign source other] at same
    have none : z = 0 := by
      rcases le_total x z with less | more
      · rw [abs_sub_comm x z, abs_of_nonneg (sub_nonneg.mpr less)] at nearest
        rw [sub_zero, abs_of_nonneg source] at zero
        linarith
      · rw [abs_of_nonneg (sub_nonneg.mpr more)] at nearest
        linarith
    rw [none, signed_zero, signed_zero]
    rw [none, add_zero] at same
    rw [sub_zero, abs_of_nonneg source]
    exact ⟨rfl, same⟩

end

namespace Datum

/-- The order of what patterns stand for; a NaN is in no order. -/
def Le : Datum → Datum → Prop
  | .finite s x, .finite t y => signed s x ≤ signed t y
  | .finite _ _, .infinite t => t = false
  | .infinite s, .finite _ _ => s = true
  | .infinite s, .infinite t => s = true ∨ t = false
  | _, _ => False

end Datum

namespace Format
variable {f g : Format} {bits : Nat}

/-- A pattern without its sign. -/
def code (f : Format) (bits : Nat) : Nat := bits % 2 ^ (f.expBits + f.mantBits)

def negative (f : Format) (bits : Nat) : Bool := (f.fields bits).negative

/-- The pattern of infinity: finite numbers are below it, NaN are above. -/
def inf (f : Format) : Nat := (2 ^ f.expBits - 1) * 2 ^ f.mantBits

theorem code_lt : f.code bits < 2 ^ f.expBits * 2 ^ f.mantBits := by
  rw [← Nat.pow_add]
  exact Nat.mod_lt _ (Nat.two_pow_pos _)

theorem fields_eq (f : Format) (bits : Nat) : f.fields bits =
    ⟨f.negative bits, f.code bits / 2 ^ f.mantBits, f.code bits % 2 ^ f.mantBits⟩ := by
  have exponent : f.code bits / 2 ^ f.mantBits = bits / 2 ^ f.mantBits % 2 ^ f.expBits := by
    rw [code, Nat.add_comm, Nat.pow_add, Nat.mod_mul_right_div_self]
  have mantissa : f.code bits % 2 ^ f.mantBits = bits % 2 ^ f.mantBits :=
    Nat.mod_mod_of_dvd _ (Nat.pow_dvd_pow 2 (Nat.le_add_left _ _))
  rw [exponent, mantissa]
  rfl

theorem decode_eq : f.decode bits =
    if f.code bits < f.inf then .finite (f.negative bits) (f.magnitude (f.code bits))
    else if f.code bits = f.inf then .infinite (f.negative bits) else .nan := by
  have small : f.code bits / 2 ^ f.mantBits < 2 ^ f.expBits :=
    (Nat.div_lt_iff_lt_mul (Nat.two_pow_pos _)).mpr code_lt
  have parts := Nat.div_add_mod' (f.code bits) (2 ^ f.mantBits)
  rw [decode, fields_eq, datum]
  by_cases ones : f.code bits / 2 ^ f.mantBits = 2 ^ f.expBits - 1
  · have from_ : f.inf + f.code bits % 2 ^ f.mantBits = f.code bits := by rwa [ones] at parts
    rw [if_pos ones, if_neg (by omega : ¬ f.code bits < f.inf)]
    by_cases none : f.code bits % 2 ^ f.mantBits = 0
    · rw [if_pos none, if_pos (by omega)]
    · rw [if_neg none, if_neg (by omega)]
  · have less : f.code bits < f.inf := (Nat.div_lt_iff_lt_mul (Nat.two_pow_pos _)).mp (by omega)
    rw [if_neg ones, if_pos less]
    rfl

theorem decode_finite {s : Bool} {x : Rat} :
    f.decode bits = .finite s x ↔ f.code bits < f.inf ∧ f.negative bits = s ∧
      f.magnitude (f.code bits) = x := by
  rw [decode_eq]
  by_cases less : f.code bits < f.inf
  · simp [less]
  · by_cases same : f.code bits = f.inf
    · simp [same]
    · simp [less, same]

theorem decode_infinite {s : Bool} :
    f.decode bits = .infinite s ↔ f.code bits = f.inf ∧ f.negative bits = s := by
  rw [decode_eq]
  by_cases less : f.code bits < f.inf
  · simp [less, Nat.ne_of_lt less]
  · by_cases same : f.code bits = f.inf
    · simp [same]
    · simp [less, same]

theorem decode_nan : f.decode bits = .nan ↔ f.inf < f.code bits := by
  rw [decode_eq]
  by_cases less : f.code bits < f.inf
  · simp [less, Nat.le_of_lt less]
  · by_cases same : f.code bits = f.inf
    · simp [same]
    · simp only [less, same, if_false, true_iff]
      omega

/-- Rounding without the sign is rounding with it: no number of either sign is nearer, and one as
near is a neighbour the rule decided against, or the same number. -/
theorem nearest_signed {stays : Nat → Prop} {s t : Bool} {x : Rat} {c d : Nat} (source : 0 ≤ x)
    (rounds : Rounds f.magnitude stays x c) :
    |signed s x - signed s (f.magnitude c)| ≤ |signed s x - signed t (f.magnitude d)| ∧
      (|signed s x - signed s (f.magnitude c)| = |signed s x - signed t (f.magnitude d)| →
        signed t (f.magnitude d) ≠ signed s (f.magnitude c) →
          d = c + 1 ∧ stays c ∨ c = d + 1 ∧ ¬ stays d) := by
  have near := rounds.nearest magnitude_strictMono (d := d)
  have zero := rounds.nearest magnitude_strictMono (d := 0)
  rw [magnitude_zero] at zero
  rw [abs_signed_sub]
  constructor
  · exact near.trans (abs_sub_le_signed source magnitude_nonneg)
  · intro same differ
    obtain ⟨sign, tied⟩ := signed_of_tie source magnitude_nonneg zero near same
    have another : d ≠ c := fun equal => differ (by rw [sign, equal])
    exact rounds.tied magnitude_strictMono another tied

/-- The order of two patterns: by sign, then by what they are without it; the two zeros
are the same. -/
def CodeLe (s t : Bool) (c d : Nat) : Prop :=
  match s, t with
  | false, false => c ≤ d
  | true, true => d ≤ c
  | true, false => True
  | false, true => c = 0 ∧ d = 0

theorem signed_magnitude_le {s t : Bool} {c d : Nat} :
    signed s (f.magnitude c) ≤ signed t (f.magnitude d) ↔ CodeLe s t c d := by
  have one : 0 ≤ f.magnitude c := magnitude_nonneg
  have two : 0 ≤ f.magnitude d := magnitude_nonneg
  cases s with
  | false =>
    cases t with
    | false => exact magnitude_strictMono.le_iff_le
    | true =>
      have zero {n : Nat} : f.magnitude n = 0 ↔ n = 0 := by
        rw [← magnitude_zero (f := f), magnitude_strictMono.injective.eq_iff]
      simp only [signed, CodeLe, ← zero]
      constructor
      · intro less
        simp only [Bool.false_eq_true, if_false, if_true] at less
        exact ⟨by linarith, by linarith⟩
      · rintro ⟨first, second⟩
        simp [first, second]
  | true =>
    cases t with
    | false =>
      simp only [signed, CodeLe, if_true, iff_true]
      exact le_trans (neg_nonpos.mpr one) two
    | true =>
      simp only [signed, CodeLe, if_true, neg_le_neg_iff]
      exact magnitude_strictMono.le_iff_le

theorem le_iff (some_ : 0 < f.inf) {a b : Nat} : (f.decode a).Le (f.decode b) ↔
    f.code a ≤ f.inf ∧ f.code b ≤ f.inf ∧ CodeLe (f.negative a) (f.negative b) (f.code a) (f.code b) := by
  rw [decode_eq, decode_eq]
  rcases Nat.lt_trichotomy (f.code a) f.inf with less | same | more
  · rcases Nat.lt_trichotomy (f.code b) f.inf with less' | same' | more'
    · simp only [less, less', if_true, Datum.Le, signed_magnitude_le, Nat.le_of_lt, true_and]
    · cases f.negative a <;> cases f.negative b <;>
        simp [less, same', Datum.Le, CodeLe] <;> omega
    · simp [less, Nat.not_lt.mpr (Nat.le_of_lt more'), Nat.ne_of_gt more', Datum.Le, Nat.not_le.mpr more']
  · rcases Nat.lt_trichotomy (f.code b) f.inf with less' | same' | more'
    · have below := Nat.le_of_lt less'
      cases f.negative a <;> cases f.negative b <;> simp [same, less', below, Datum.Le, CodeLe]
      omega
    · cases f.negative a <;> cases f.negative b <;> simp [same, same', Datum.Le, CodeLe]
      omega
    · simp [same, Nat.not_lt.mpr (Nat.le_of_lt more'), Nat.ne_of_gt more', Datum.Le, Nat.not_le.mpr more']
  · simp [Nat.not_lt.mpr (Nat.le_of_lt more), Nat.ne_of_gt more, Datum.Le, Nat.not_le.mpr more]

/-- The largest finite magnitude. -/
def largest (f : Format) : Rat := f.magnitude (f.inf - 1)

/-- The unit in the last place of the largest finite magnitude. -/
def largestUlp (f : Format) : Rat := scaled 1 ((2 ^ f.expBits - 2 : Nat) - f.bias - f.mantBits)

theorem inf_pos (wide : 2 ≤ f.expBits) : 0 < f.inf := by
  have four : 2 ^ 2 ≤ 2 ^ f.expBits := Nat.pow_le_pow_right (by decide) wide
  exact Nat.mul_pos (by omega) (Nat.two_pow_pos _)

/-- The pattern of infinity stands where the next magnitude would. -/
theorem magnitude_inf (wide : 2 ≤ f.expBits) : f.magnitude f.inf = f.largest + f.largestUlp := by
  have four : 2 ^ 2 ≤ 2 ^ f.expBits := Nat.pow_le_pow_right (by decide) wide
  have positive : 0 < 2 ^ f.mantBits := Nat.two_pow_pos _
  obtain ⟨e, exponents⟩ := Nat.exists_eq_add_of_le' (show 3 ≤ 2 ^ f.expBits by omega)
  have normal : 1 ≤ e + 1 := by omega
  have large : 2 ^ f.mantBits ≤ 2 ^ (f.mantBits + 1) - 1 := by
    rw [Nat.pow_succ]
    omega
  have top : f.inf = e * 2 ^ f.mantBits + 2 ^ (f.mantBits + 1) := by
    rw [inf, exponents, Nat.pow_succ, Nat.mul_comm (2 ^ f.mantBits) 2, ← Nat.add_mul]
    rfl
  have most : 2 ^ (f.mantBits + 1) - 1 + 1 = 2 ^ (f.mantBits + 1) := by omega
  have below : f.inf - 1 = e * 2 ^ f.mantBits + (2 ^ (f.mantBits + 1) - 1) := by omega
  have last := magnitude_eq (f := f) normal (by omega) (.inr large)
  have next := magnitude_eq (f := f) normal (Nat.le_refl _) (.inr (by omega))
  rw [Nat.add_sub_cancel] at last next
  rw [largest, below, last, top, next, largestUlp, exponents, ← most]
  exact (scaled_add _ 1 _).symm

end Format

variable {α : Type}

/-- A conversion of `source` patterns to `target` patterns that keeps the sign and rounds
what has no sign, to infinity where the range ends. -/
structure Converts (f g : Format) (stays : Nat → Prop) (source target : α → Nat) : Prop where
  sign : ∀ a, g.negative (target a) = f.negative (source a)
  finite : ∀ a, f.code (source a) < f.inf →
    ∃ c, Rounds g.magnitude stays (f.magnitude (f.code (source a))) c ∧ g.code (target a) = min c g.inf
  infinite : ∀ a, f.code (source a) = f.inf → g.code (target a) = g.inf
  nan : ∀ a, f.inf < f.code (source a) → g.inf < g.code (target a)

/-- A conversion is correctly rounded: `tie` holds of a result, what it stands for and
what is as near. -/
structure CorrectlyRounds (f g : Format) (tie : Nat → Rat → Rat → Prop) (source target : α → Nat) :
    Prop where
  sign : ∀ a, g.negative (target a) = f.negative (source a)
  nan : ∀ a, f.decode (source a) = .nan → g.decode (target a) = .nan
  infinite : ∀ a s, f.decode (source a) = .infinite s → g.decode (target a) = .infinite s
  overflow : ∀ a s x, f.decode (source a) = .finite s x →
    (g.decode (target a) = .infinite s ↔ g.largest + g.largestUlp / 2 ≤ x)
  nearest : ∀ a s x, f.decode (source a) = .finite s x → x < g.largest + g.largestUlp / 2 →
    ∃ y, g.decode (target a) = .finite s y ∧ ∀ other t z, g.decode other = .finite t z →
      |signed s x - signed s y| ≤ |signed s x - signed t z| ∧
        (|signed s x - signed s y| = |signed s x - signed t z| → signed t z ≠ signed s y →
          tie (target a) y z)
  monotone : ∀ a b, (f.decode (source a)).Le (f.decode (source b)) →
    (g.decode (target a)).Le (g.decode (target b))

namespace Converts
variable {f g : Format} {stays : Nat → Prop} {source target : α → Nat} {a b : α}

theorem overflows (conv : Converts f g stays source target) (wide : 2 ≤ g.expBits)
    (leaves : ¬ stays (g.inf - 1))
    (finite : f.code (source a) < f.inf) :
    g.code (target a) = g.inf ↔ g.largest + g.largestUlp / 2 ≤ f.magnitude (f.code (source a)) := by
  obtain ⟨c, rounds, out⟩ := conv.finite a finite
  have some_ := Format.inf_pos wide
  have next : g.inf - 1 + 1 = g.inf := by omega
  have past := rounds.lt_iff Format.magnitude_strictMono (p := g.inf - 1)
  rw [next, Format.magnitude_inf wide] at past
  have reached : g.code (target a) = g.inf ↔ g.inf - 1 < c := by omega
  rw [reached, past]
  change g.largest + _ ≤ _ ∧ _ ↔ _
  constructor
  · rintro ⟨half, -⟩
    linarith
  · intro half
    exact ⟨by linarith, fun _ => leaves⟩

/-- Without their signs, what is larger is converted to what is larger. -/
theorem code_mono (conv : Converts f g stays source target)
    (order : f.code (source a) ≤ f.code (source b)) (number : f.code (source b) ≤ f.inf) :
    g.code (target a) ≤ g.code (target b) := by
  rcases Nat.lt_or_ge (f.code (source a)) f.inf with less | same
  · obtain ⟨c, rounds, out⟩ := conv.finite a less
    rcases Nat.lt_or_ge (f.code (source b)) f.inf with less' | same'
    · obtain ⟨d, rounds', out'⟩ := conv.finite b less'
      have le := rounds.mono Format.magnitude_strictMono rounds'
        (Format.magnitude_strictMono.monotone order)
      omega
    · rw [conv.infinite b (by omega), out]
      exact Nat.min_le_right _ _
  · rw [conv.infinite a (by omega), conv.infinite b (by omega)]

theorem code_le (conv : Converts f g stays source target) (number : f.code (source a) ≤ f.inf) :
    g.code (target a) ≤ g.inf := by
  rcases Nat.lt_or_ge (f.code (source a)) f.inf with less | same
  · obtain ⟨c, rounds, out⟩ := conv.finite a less
    omega
  · rw [conv.infinite a (by omega)]

theorem code_zero (conv : Converts f g stays source target) (some_ : 0 < f.inf)
    (zero : f.code (source a) = 0) :
    g.code (target a) = 0 := by
  obtain ⟨c, rounds, out⟩ := conv.finite a (by omega)
  rw [zero, Format.magnitude_zero] at rounds
  have none : Rounds g.magnitude stays 0 0 := by
    rw [← Format.magnitude_zero (f := g)]
    exact rounds_self Format.magnitude_strictMono
  have same := rounds.unique Format.magnitude_strictMono none
  omega

theorem monotone (conv : Converts f g stays source target) (some_ : 0 < f.inf) (some_' : 0 < g.inf)
    (order : (f.decode (source a)).Le (f.decode (source b))) :
      (g.decode (target a)).Le (g.decode (target b)) := by
  obtain ⟨first, second, order⟩ := (Format.le_iff some_).mp order
  apply (Format.le_iff some_').mpr
  refine ⟨conv.code_le first, conv.code_le second, ?_⟩
  rw [conv.sign, conv.sign]
  revert order
  cases f.negative (source a) with
  | false =>
    cases f.negative (source b) with
    | false => exact fun order => conv.code_mono order second
    | true => exact fun order => ⟨conv.code_zero some_ order.1, conv.code_zero some_ order.2⟩
  | true =>
    cases f.negative (source b) with
    | false => exact fun _ => trivial
    | true => exact fun order => conv.code_mono order first

theorem correct (conv : Converts f g stays source target) (wide : 2 ≤ f.expBits) (wide' : 2 ≤ g.expBits)
    (leaves : ¬ stays (g.inf - 1)) {tie : Nat → Rat → Rat → Prop}
    (up : ∀ bits, stays (g.code bits) → ∀ y z, tie bits y z)
    (down : ∀ bits d, g.code bits = d + 1 → ¬ stays d → tie bits (g.magnitude (d + 1)) (g.magnitude d)) :
    CorrectlyRounds f g tie source target := by
  constructor
  · exact conv.sign
  · intro a nan
    exact Format.decode_nan.mpr (conv.nan a (Format.decode_nan.mp nan))
  · intro a s infinite
    obtain ⟨top, sign⟩ := Format.decode_infinite.mp infinite
    exact Format.decode_infinite.mpr ⟨conv.infinite a top, (conv.sign a).trans sign⟩
  · rintro a s x finite
    obtain ⟨less, sign, rfl⟩ := Format.decode_finite.mp finite
    rw [Format.decode_infinite, conv.overflows wide' leaves less, conv.sign, sign]
    simp
  · rintro a s x finite within
    obtain ⟨less, rfl, rfl⟩ := Format.decode_finite.mp finite
    have inside : g.code (target a) ≠ g.inf := fun same =>
      absurd ((conv.overflows wide' leaves less).mp same) (not_le.mpr within)
    obtain ⟨c, rounds, out⟩ := conv.finite a less
    have here : g.code (target a) = c := by omega
    refine ⟨g.magnitude c, Format.decode_finite.mpr ⟨by omega, conv.sign a, by rw [here]⟩, ?_⟩
    intro other t z there
    obtain ⟨-, rfl, rfl⟩ := Format.decode_finite.mp there
    obtain ⟨near, tied⟩ := Format.nearest_signed (s := f.negative (source a)) (t := g.negative other)
      (d := g.code other) Format.magnitude_nonneg rounds
    refine ⟨near, fun same differ => ?_⟩
    rcases tied same differ with ⟨-, stay⟩ | ⟨next, leave⟩
    · exact up _ (by rwa [here]) _ _
    · rw [next]
      exact down _ _ (here.trans next) leave
  · intro a b order
    exact conv.monotone (Format.inf_pos wide) (Format.inf_pos wide') order

end Converts
end Library.Floating
