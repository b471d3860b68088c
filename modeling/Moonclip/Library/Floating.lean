import Mathlib.Algebra.Order.Field.Rat
import Mathlib.Tactic.FieldSimp
import Mathlib.Tactic.Ring
import Mathlib.Tactic.Positivity

/-! Binary floating-point formats: patterns of a sign, an exponent and a mantissa, and
the number each stands for. The widths and the bias are arbitrary. -/
namespace Library.Floating

/-- The parts of a pattern. -/
structure Fields where
  negative : Bool
  exponent : Nat
  mantissa : Nat
deriving DecidableEq, Repr

/-- What a pattern stands for; a zero has its sign. -/
inductive Datum where
  | finite (negative : Bool) (magnitude : Rat)
  | infinite (negative : Bool)
  | nan
deriving DecidableEq, Repr

/-- A sign bit, an exponent and a mantissa, the exponent of all ones kept for infinities
and NaN. -/
structure Format where
  expBits : Nat
  mantBits : Nat
  bias : Nat

/-- `significand * 2 ^ place`. -/
def scaled (significand : Nat) (place : Int) : Rat := significand * 2 ^ place

theorem scaled_shift (n k : Nat) (z : Int) : scaled (n * 2 ^ k) (z - k) = scaled n z := by
  unfold scaled
  rw [zpow_sub₀ (by norm_num), zpow_natCast]
  push_cast
  field_simp

theorem scaled_half (n : Nat) (z : Int) : scaled n (z - 1) = scaled n z / 2 := by
  unfold scaled
  rw [zpow_sub₀ (by norm_num), zpow_one]
  ring

theorem scaled_pos {n : Nat} {z : Int} (positive : 0 < n) : 0 < scaled n z := by
  exact mul_pos (by exact_mod_cast positive) (zpow_pos (by norm_num) z)

namespace Format

def fields (f : Format) (bits : Nat) : Fields where
  negative := decide (bits / 2 ^ (f.expBits + f.mantBits) % 2 = 1)
  exponent := bits / 2 ^ f.mantBits % 2 ^ f.expBits
  mantissa := bits % 2 ^ f.mantBits

def join (f : Format) (x : Fields) : Nat :=
  (x.negative.toNat * 2 ^ f.expBits + x.exponent) * 2 ^ f.mantBits + x.mantissa

/-- The parts are as wide as the format has them. -/
def Fits (f : Format) (x : Fields) : Prop := x.exponent < 2 ^ f.expBits ∧ x.mantissa < 2 ^ f.mantBits

def significand (f : Format) (x : Fields) : Nat :=
  if x.exponent = 0 then x.mantissa else 2 ^ f.mantBits + x.mantissa

/-- The power of two the last place of the significand stands for; subnormals share that
of the smallest normal numbers. -/
def place (f : Format) (x : Fields) : Int := max x.exponent 1 - f.bias - f.mantBits

def datum (f : Format) (x : Fields) : Datum :=
  if x.exponent = 2 ^ f.expBits - 1 then
    if x.mantissa = 0 then .infinite x.negative else .nan
  else .finite x.negative (scaled (f.significand x) (f.place x))

/-- The number a pattern stands for. -/
def decode (f : Format) (bits : Nat) : Datum := f.datum (f.fields bits)

variable {f : Format} {x : Fields} {bits : Nat}

theorem fits_fields : f.Fits (f.fields bits) :=
  ⟨Nat.mod_lt _ (Nat.two_pow_pos _), Nat.mod_lt _ (Nat.two_pow_pos _)⟩

theorem fields_join (fits : f.Fits x) : f.fields (f.join x) = x := by
  obtain ⟨small, least⟩ := fits
  have high : f.join x / 2 ^ f.mantBits = x.negative.toNat * 2 ^ f.expBits + x.exponent := by
    rw [join, Nat.add_comm, Nat.add_mul_div_right _ _ (Nat.two_pow_pos _),
      Nat.div_eq_of_lt least, Nat.zero_add]
  have low : f.join x % 2 ^ f.mantBits = x.mantissa := by
    rw [join, Nat.add_comm, Nat.add_mul_mod_self_right, Nat.mod_eq_of_lt least]
  have exponent : f.join x / 2 ^ f.mantBits % 2 ^ f.expBits = x.exponent := by
    rw [high, Nat.add_comm, Nat.add_mul_mod_self_right, Nat.mod_eq_of_lt small]
  have sign : f.join x / 2 ^ (f.expBits + f.mantBits) = x.negative.toNat := by
    rw [Nat.add_comm f.expBits, Nat.pow_add, ← Nat.div_div_eq_div_mul, high, Nat.add_comm,
      Nat.add_mul_div_right _ _ (Nat.two_pow_pos _), Nat.div_eq_of_lt small, Nat.zero_add]
  have negative : decide (x.negative.toNat % 2 = 1) = x.negative := by cases x.negative <;> rfl
  simp only [fields, low, exponent, sign, negative]

theorem join_fields (within : bits < 2 ^ (1 + f.expBits + f.mantBits)) : f.join (f.fields bits) = bits := by
  have sign : bits / 2 ^ (f.expBits + f.mantBits) < 2 := by
    rw [Nat.add_assoc, Nat.pow_add, Nat.mul_comm] at within
    exact Nat.div_lt_of_lt_mul within
  have negative : (decide (bits / 2 ^ (f.expBits + f.mantBits) % 2 = 1)).toNat =
      bits / 2 ^ (f.expBits + f.mantBits) := by
    rcases Nat.le_one_iff_eq_zero_or_eq_one.mp (Nat.lt_succ_iff.mp sign) with zero | one
    · simp [zero]
    · simp [one]
  have high : bits / 2 ^ f.mantBits =
      bits / 2 ^ (f.expBits + f.mantBits) * 2 ^ f.expBits + bits / 2 ^ f.mantBits % 2 ^ f.expBits := by
    rw [Nat.add_comm f.expBits, Nat.pow_add, ← Nat.div_div_eq_div_mul]
    exact (Nat.div_add_mod' _ _).symm
  simp only [join, fields, negative]
  rw [← high]
  exact Nat.div_add_mod' _ _

theorem decode_join (fits : f.Fits x) : f.decode (f.join x) = f.datum x := by
  rw [decode, fields_join fits]

/-- In another format, with the same significand moved `k` places: the same number. -/
theorem datum_eq_of_shift {g : Format} {y : Fields} {k : Nat} (sign : y.negative = x.negative)
    (finite : x.exponent ≠ 2 ^ f.expBits - 1) (finite' : y.exponent ≠ 2 ^ g.expBits - 1)
    (moved : g.significand y = f.significand x * 2 ^ k) (place : g.place y = f.place x - k) :
    g.datum y = f.datum x := by
  rw [datum, datum, if_neg finite, if_neg finite', sign, moved, place, scaled_shift]

end Format
end Library.Floating
