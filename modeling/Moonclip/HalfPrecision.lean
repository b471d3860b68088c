import Moonclip.Cast
import Moonclip.Library.Floating
import Mathlib.Data.Nat.Bitwise
import Mathlib.Tactic.Linarith

/-! Half precision as numbers: what the bit manipulations of a cast make of sign,
exponent and mantissa, which patterns keep their value when widened, and which come
back. -/
namespace Moonclip
open Library.Floating Library.Codec Library.Blocks Library.Outcome

namespace Cast

/-- IEEE 754 half precision. -/
def half : Format := ⟨5, 10, 15⟩

/-- bfloat16. -/
def brain : Format := ⟨8, 7, 127⟩

section
variable {a b c : UInt32} {s e m : Nat}

theorem or_eq_add {n : Nat} (small : m < 2 ^ n) : (e * 2 ^ n ||| m) = e * 2 ^ n + m := by
  rw [Nat.mul_comm, Nat.two_pow_add_eq_or_of_lt small]

/-- Three parts put together with `|`, when none reaches into another. -/
theorem or_single (sign : a.toNat = s * 2 ^ 31) (exponent : b.toNat = e * 2 ^ 23) (mantissa : c.toNat = m)
    (small : e < 2 ^ 8) (least : m < 2 ^ 23) : (a ||| b ||| c).toNat = (s * 2 ^ 8 + e) * 2 ^ 23 + m := by
  have high : (s * 2 ^ 31 ||| e * 2 ^ 23) = (s * 2 ^ 8 + e) * 2 ^ 23 := by
    rw [or_eq_add (by omega)]
    omega
  rw [UInt32.toNat_or, UInt32.toNat_or, sign, exponent, mantissa, high, or_eq_add least]

theorem sign_single (bits : UInt16) :
    ((bits.toUInt32 &&& 0x8000) <<< 16).toNat = bits.toNat / 2 ^ 15 % 2 * 2 ^ 31 := by
  have bit : bits.toNat &&& 32768 = bits.toNat / 2 ^ 15 % 2 * 2 ^ 15 := by
    rw [← Nat.toNat_testBit]
    exact Nat.and_two_pow bits.toNat 15
  have small : bits.toNat / 2 ^ 15 % 2 < 2 := Nat.mod_lt _ (by decide)
  simp only [UInt32.toNat_shiftLeft, UInt32.toNat_and, UInt16.toNat_toUInt32, UInt32.reduceToNat,
    bit, Nat.reduceMod,
    Nat.shiftLeft_eq]
  omega

theorem exponent_half (bits : UInt16) :
    ((bits >>> 10) &&& 0x1F).toUInt32.toNat = bits.toNat / 2 ^ 10 % 2 ^ 5 := by
  have low := Nat.and_two_pow_sub_one_eq_mod (bits.toNat / 2 ^ 10) 5
  simpa [Nat.shiftRight_eq_div_pow] using low

theorem mantissa_half (bits : UInt16) : (bits &&& 0x3FF).toUInt32.toNat = bits.toNat % 2 ^ 10 := by
  have low := Nat.and_two_pow_sub_one_eq_mod bits.toNat 10
  simpa using low

/-- The loop ends at the leading one. -/
theorem normalize_spec (fuel : Nat) (m : UInt32) (e : Nat) (enough : 2 ^ 10 ≤ m.toNat * 2 ^ fuel)
    (small : m.toNat < 2 ^ 11) :
    ∃ k ≤ fuel, (normalize fuel m e).2 = e + k ∧ (normalize fuel m e).1.toNat = m.toNat * 2 ^ k ∧
      2 ^ 10 ≤ m.toNat * 2 ^ k ∧ m.toNat * 2 ^ k < 2 ^ 11 := by
  induction fuel generalizing m e with
  | zero => exact ⟨0, Nat.le_refl 0, rfl, by simp [normalize], enough, by simpa using small⟩
  | succ fuel ih =>
    have bit : (m &&& 0x400).toNat = m.toNat / 2 ^ 10 % 2 * 2 ^ 10 := by
      have bit := Nat.and_two_pow m.toNat 10
      rw [Nat.toNat_testBit] at bit
      simpa using bit
    unfold normalize
    by_cases leading : m &&& 0x400 = 0
    · have below : m.toNat < 2 ^ 10 := by
        rw [leading] at bit
        simp only [UInt32.toNat_zero] at bit
        omega
      have doubled : (m <<< 1).toNat = m.toNat * 2 := by
        simp only [UInt32.toNat_shiftLeft, UInt32.reduceToNat, Nat.shiftLeft_eq, Nat.reduceMod, Nat.pow_one]
        omega
      rw [if_pos leading]
      obtain ⟨k, most, places, shifted, least, under⟩ := ih (m <<< 1) (e + 1)
        (by rw [doubled, Nat.mul_assoc, ← Nat.pow_succ']; exact enough) (by omega)
      rw [doubled, Nat.mul_assoc, ← Nat.pow_succ'] at shifted least under
      exact ⟨k + 1, by omega, by omega, shifted, least, under⟩
    · have reached : 2 ^ 10 ≤ m.toNat := by
        by_contra below
        apply leading
        apply UInt32.toNat_inj.mp
        rw [bit, UInt32.toNat_zero, Nat.div_eq_of_lt (by omega), Nat.zero_mod, Nat.zero_mul]
      rw [if_neg leading]
      exact ⟨0, Nat.zero_le _, rfl, by simp, by simpa using reached, by simpa using small⟩

end

/-- A nonzero number below the smallest normal one. -/
def Subnormal (x : Fields) : Prop := x.exponent = 0 ∧ x.mantissa ≠ 0

instance (x : Fields) : Decidable (Subnormal x) := inferInstanceAs (Decidable (_ ∧ _))

theorem bool_toNat (n : Nat) : (decide (n % 2 = 1)).toNat = n % 2 := by
  rcases Nat.mod_two_eq_zero_or_one n with zero | one
  · simp [zero]
  · simp [one]

theorem half_fields (bits : Nat) :
    half.fields bits = ⟨decide (bits / 2 ^ 15 % 2 = 1), bits / 2 ^ 10 % 2 ^ 5, bits % 2 ^ 10⟩ := rfl

theorem single_fields (bits : Nat) :
    single.fields bits = ⟨decide (bits / 2 ^ 31 % 2 = 1), bits / 2 ^ 23 % 2 ^ 8, bits % 2 ^ 23⟩ := rfl

/-- Widening, except where it normalizes. -/
theorem fp16BitsToFp32Bits_eq {bits : UInt16} {x : Fields} (parts : half.fields bits.toNat = x)
    (plain : ¬ Subnormal x) : (fp16BitsToFp32Bits bits).toNat = single.join ⟨x.negative,
      if x.exponent = 0 then 0 else if x.exponent = 31 then 255 else x.exponent + 112,
        x.mantissa * 2 ^ 13⟩ := by
  subst parts
  have sign := sign_single bits
  have exponent := exponent_half bits
  have mantissa := mantissa_half bits
  have small : bits.toNat / 2 ^ 10 % 2 ^ 5 < 2 ^ 5 := Nat.mod_lt _ (by decide)
  have least : bits.toNat % 2 ^ 10 < 2 ^ 10 := Nat.mod_lt _ (by decide)
  have moved : ((bits &&& 0x3FF).toUInt32 <<< 13).toNat = bits.toNat % 2 ^ 10 * 2 ^ 13 := by
    simp only [UInt32.toNat_shiftLeft, mantissa, UInt32.reduceToNat, Nat.shiftLeft_eq, Nat.reduceMod]
    omega
  rw [half_fields] at plain ⊢
  simp only [single, Format.join, bool_toNat]
  unfold fp16BitsToFp32Bits
  extract_lets signBits exp mant newExp
  split
  · rename_i zero
    have none : bits.toNat / 2 ^ 10 % 2 ^ 5 = 0 := exponent.symm.trans (congrArg UInt32.toNat zero)
    have nothing : bits.toNat % 2 ^ 10 = 0 := by
      by_contra some_
      exact plain ⟨none, some_⟩
    have zero' : mant = 0 := UInt32.toNat_inj.mp (mantissa.trans nothing)
    rw [if_pos zero', if_pos none, nothing]
    simp only [signBits, sign]
    omega
  · rename_i nonzero
    have some_ : bits.toNat / 2 ^ 10 % 2 ^ 5 ≠ 0 := fun none =>
      nonzero (UInt32.toNat_inj.mp (exponent.trans none))
    rw [if_neg some_]
    split
    · rename_i ones
      have full : bits.toNat / 2 ^ 10 % 2 ^ 5 = 31 := exponent.symm.trans (congrArg UInt32.toNat ones)
      rw [if_pos full]
      exact or_single sign rfl moved (by decide) (by omega)
    · rename_i below
      have less : bits.toNat / 2 ^ 10 % 2 ^ 5 ≠ 31 := fun full =>
        below (UInt32.toNat_inj.mp (exponent.trans full))
      rw [if_neg less]
      have biased : newExp.toNat = bits.toNat / 2 ^ 10 % 2 ^ 5 + 112 := by
        simp only [newExp, UInt32.toNat_sub, UInt32.toNat_add, exp, exponent, UInt32.reduceToNat]
        omega
      apply or_single sign ?_ moved (by omega) (by omega)
      simp only [UInt32.toNat_shiftLeft, biased, UInt32.reduceToNat, Nat.shiftLeft_eq, Nat.reduceMod]
      omega

/-- What it makes of the numbers it normalizes. -/
theorem fp16BitsToFp32Bits_subnormal {bits : UInt16} {x : Fields} (parts : half.fields bits.toNat = x)
    (subnormal : Subnormal x) :
    ∃ k, 1 ≤ k ∧ k ≤ 10 ∧ 2 ^ 10 ≤ x.mantissa * 2 ^ k ∧ x.mantissa * 2 ^ k < 2 ^ 11 ∧
      (fp16BitsToFp32Bits bits).toNat =
        single.join ⟨x.negative, 112 - k, (x.mantissa * 2 ^ k - 2 ^ 10) * 2 ^ 13⟩ := by
  subst parts
  have sign := sign_single bits
  have exponent := exponent_half bits
  have mantissa := mantissa_half bits
  have least : bits.toNat % 2 ^ 10 < 2 ^ 10 := Nat.mod_lt _ (by decide)
  obtain ⟨none, some_⟩ := subnormal
  rw [half_fields] at none some_ ⊢
  simp only at none some_
  obtain ⟨k, most, places, shifted, reached, under⟩ := normalize_spec 10 (bits &&& 0x3FF).toUInt32 0
    (by rw [mantissa]; omega) (by rw [mantissa]; omega)
  rw [mantissa] at shifted reached under
  have one : 1 ≤ k := by
    by_contra zero
    obtain rfl : k = 0 := by omega
    simp only [Nat.pow_zero, Nat.mul_one] at reached
    omega
  refine ⟨k, one, most, reached, under, ?_⟩
  have zero : ((bits >>> 10) &&& 0x1F).toUInt32 = 0 := UInt32.toNat_inj.mp (exponent.trans none)
  have nonzero : (bits &&& 0x3FF).toUInt32 ≠ 0 := fun zero =>
    some_ (mantissa.symm.trans (by rw [zero]; rfl))
  simp only [single, Format.join, bool_toNat]
  unfold fp16BitsToFp32Bits
  extract_lets signBits exp mant
  rw [if_pos zero, if_neg nonzero]
  change (signBits ||| (UInt32.ofNat (127 - 15 - (normalize 10 mant 0).2) <<< 23) |||
    (((normalize 10 mant 0).1 &&& 0x3FF) <<< 13)).toNat = _
  change (normalize 10 mant 0).1.toNat = _ at shifted
  change (normalize 10 mant 0).2 = _ at places
  have biased : (UInt32.ofNat (127 - 15 - (normalize 10 mant 0).2)).toNat = 112 - k := by
    rw [places, UInt32.toNat_ofNat']
    omega
  have fraction : ((normalize 10 mant 0).1 &&& 0x3FF).toNat = bits.toNat % 2 ^ 10 * 2 ^ k - 2 ^ 10 := by
    have low : bits.toNat % 2 ^ 10 * 2 ^ k &&& 1023 = bits.toNat % 2 ^ 10 * 2 ^ k % 2 ^ 10 :=
      Nat.and_two_pow_sub_one_eq_mod _ 10
    simp only [UInt32.toNat_and, shifted, UInt32.reduceToNat, low]
    omega
  apply or_single sign ?_ ?_ (by omega) (by omega)
  · simp only [UInt32.toNat_shiftLeft, biased, UInt32.reduceToNat, Nat.shiftLeft_eq, Nat.reduceMod]
    omega
  · simp only [UInt32.toNat_shiftLeft, fraction, UInt32.reduceToNat, Nat.shiftLeft_eq, Nat.reduceMod]
    omega

/-- Exponent and mantissa of a single, narrowed: what falls off is rounded by its first
bit, and may carry into the exponent. -/
def narrowedHalf (exponent mantissa : Nat) : Nat :=
  if exponent = 255 then if mantissa = 0 then 31 * 2 ^ 10 else 31 * 2 ^ 10 + 2 ^ 9
  else if 143 ≤ exponent then 31 * 2 ^ 10
  else if exponent ≤ 112 then
    if exponent < 102 then 0
    else
      let m := (2 ^ 23 + mantissa) / 2 ^ (113 - exponent)
      m / 2 ^ 13 + m / 2 ^ 12 % 2
  else (exponent - 112) * 2 ^ 10 + mantissa / 2 ^ 13 + mantissa / 2 ^ 12 % 2

theorem narrowedHalf_lt (exponent : Nat) {mantissa : Nat} (least : mantissa < 2 ^ 23) :
    narrowedHalf exponent mantissa < 2 ^ 15 := by
  unfold narrowedHalf
  split
  · split <;> decide
  · split
    · decide
    · split
      · split
        · decide
        · extract_lets m
          have less : m < 2 ^ 24 := Nat.lt_of_le_of_lt (Nat.div_le_self ..) (by omega)
          omega
      · omega

section
variable {bits : UInt32}

theorem sign_half (bits : UInt32) :
    ((bits >>> 16) &&& 0x8000).toUInt16.toNat = bits.toNat / 2 ^ 31 % 2 * 2 ^ 15 := by
  have bit : bits.toNat / 2 ^ 16 &&& 32768 = bits.toNat / 2 ^ 16 / 2 ^ 15 % 2 * 2 ^ 15 := by
    rw [← Nat.toNat_testBit]
    exact Nat.and_two_pow _ 15
  simp only [UInt32.toNat_toUInt16, UInt32.toNat_and, UInt32.toNat_shiftRight,
    UInt32.reduceToNat, Nat.reduceMod,
    Nat.shiftRight_eq_div_pow, bit]
  omega

theorem exponent_single (bits : UInt32) : ((bits >>> 23) &&& 0xFF).toNat = bits.toNat / 2 ^ 23 % 2 ^ 8 := by
  have low : bits.toNat / 2 ^ 23 &&& 255 = bits.toNat / 2 ^ 23 % 2 ^ 8 := Nat.and_two_pow_sub_one_eq_mod _ 8
  simp only [UInt32.toNat_and, UInt32.toNat_shiftRight, UInt32.reduceToNat, Nat.reduceMod,
    Nat.shiftRight_eq_div_pow, low]

theorem mantissa_single (bits : UInt32) : (bits &&& 0x7FFFFF).toNat = bits.toNat % 2 ^ 23 := by
  have low : bits.toNat &&& 8388607 = bits.toNat % 2 ^ 23 := Nat.and_two_pow_sub_one_eq_mod _ 23
  simp only [UInt32.toNat_and, UInt32.reduceToNat, low]

/-- The bit that rounds. -/
theorem round_bit (m : UInt32) : ((m >>> 12) &&& 1).toNat = m.toNat / 2 ^ 12 % 2 := by
  have low : m.toNat / 2 ^ 12 &&& 1 = m.toNat / 2 ^ 12 % 2 ^ 1 := Nat.and_two_pow_sub_one_eq_mod _ 1
  simp only [UInt32.toNat_and, UInt32.toNat_shiftRight, UInt32.reduceToNat, Nat.reduceMod,
    Nat.shiftRight_eq_div_pow, low, Nat.pow_one]

theorem or_sign {a b : UInt16} {s m : Nat} (sign : a.toNat = s * 2 ^ 15) (rest : b.toNat = m)
    (least : m < 2 ^ 15) : (a ||| b).toNat = s * 2 ^ 15 + m := by
  rw [UInt16.toNat_or, sign, rest, or_eq_add least]

theorem narrow_denormalized {mant : UInt32} {newExp : Int} {exponent mantissa : Nat}
    (same : mant.toNat = mantissa) (least : mantissa < 2 ^ 23) (from_ : newExp = exponent - 112)
    (low : exponent ≤ 112 ∧ 102 ≤ exponent) :
    ((((mant ||| 0x800000) >>> UInt32.ofNat (1 - newExp).toNat) >>> 13) +
      ((((mant ||| 0x800000) >>> UInt32.ofNat (1 - newExp).toNat) >>> 12) &&& 1)).toUInt16.toNat =
      (2 ^ 23 + mantissa) / 2 ^ (113 - exponent) / 2 ^ 13 +
        (2 ^ 23 + mantissa) / 2 ^ (113 - exponent) / 2 ^ 12 % 2 := by
  have hidden : (mant ||| 0x800000).toNat = 2 ^ 23 + mantissa := by
    have joined := or_eq_add (e := 1) least
    rw [UInt32.toNat_or, same, Nat.or_comm]
    simpa using joined
  have places : (1 - newExp).toNat = 113 - exponent := by omega
  have shifted : ((mant ||| 0x800000) >>> UInt32.ofNat (1 - newExp).toNat).toNat =
      (2 ^ 23 + mantissa) / 2 ^ (113 - exponent) := by
    rw [UInt32.toNat_shiftRight, hidden, places, UInt32.toNat_ofNat', Nat.shiftRight_eq_div_pow]
    congr 2
    omega
  have less : (2 ^ 23 + mantissa) / 2 ^ (113 - exponent) < 2 ^ 24 :=
    Nat.lt_of_le_of_lt (Nat.div_le_self ..) (by omega)
  rw [UInt32.toNat_toUInt16, UInt32.toNat_add, round_bit, shifted, UInt32.toNat_shiftRight, shifted]
  simp only [UInt32.reduceToNat, Nat.reduceMod, Nat.shiftRight_eq_div_pow]
  omega

theorem narrow_normal {sign : UInt16} {mant : UInt32} {newExp : Int} {s exponent mantissa : Nat}
    (signed : sign.toNat = s * 2 ^ 15) (from_ : newExp = exponent - 112)
    (normal : s < 2 ∧ 112 < exponent ∧ exponent < 143) (same : mant.toNat = mantissa)
    (least : mantissa < 2 ^ 23) :
    ((sign ||| (UInt16.ofNat newExp.toNat <<< 10) ||| (mant >>> 13).toUInt16) +
      ((mant >>> 12) &&& 1).toUInt16).toNat =
      s * 2 ^ 15 + ((exponent - 112) * 2 ^ 10 + mantissa / 2 ^ 13 + mantissa / 2 ^ 12 % 2) := by
  have placed : (UInt16.ofNat newExp.toNat <<< 10).toNat = (exponent - 112) * 2 ^ 10 := by
    have back : newExp.toNat = exponent - 112 := by omega
    simp only [UInt16.toNat_shiftLeft, back, UInt16.toNat_ofNat', UInt16.reduceToNat, Nat.reduceMod,
      Nat.shiftLeft_eq]
    omega
  have top : (mant >>> 13).toUInt16.toNat = mantissa / 2 ^ 13 := by
    simp only [UInt32.toNat_toUInt16, UInt32.toNat_shiftRight, same, UInt32.reduceToNat, Nat.reduceMod,
      Nat.shiftRight_eq_div_pow]
    omega
  have round : ((mant >>> 12) &&& 1).toUInt16.toNat = mantissa / 2 ^ 12 % 2 := by
    rw [UInt32.toNat_toUInt16, round_bit, same]
    omega
  have joined : (sign ||| (UInt16.ofNat newExp.toNat <<< 10) ||| (mant >>> 13).toUInt16).toNat =
      s * 2 ^ 15 + (exponent - 112) * 2 ^ 10 + mantissa / 2 ^ 13 := by
    have high : (s * 2 ^ 15 ||| (exponent - 112) * 2 ^ 10) = (s * 2 ^ 5 + (exponent - 112)) * 2 ^ 10 := by
      rw [or_eq_add (by omega)]
      omega
    rw [UInt16.toNat_or, UInt16.toNat_or, signed, placed, top, high, or_eq_add (by omega)]
    omega
  rw [UInt16.toNat_add, joined, round]
  omega

/-- Narrowing. -/
theorem fp32BitsToFp16Bits_eq {x : Fields} (parts : single.fields bits.toNat = x) :
    (fp32BitsToFp16Bits bits).toNat = x.negative.toNat * 2 ^ 15 + narrowedHalf x.exponent x.mantissa := by
  subst parts
  have sign := sign_half bits
  have exponent := exponent_single bits
  have mantissa := mantissa_single bits
  have small : bits.toNat / 2 ^ 23 % 2 ^ 8 < 2 ^ 8 := Nat.mod_lt _ (by decide)
  have least : bits.toNat % 2 ^ 23 < 2 ^ 23 := Nat.mod_lt _ (by decide)
  rw [single_fields]
  simp only [bool_toNat]
  unfold fp32BitsToFp16Bits narrowedHalf
  extract_lets signBits exp mant newExp
  have exp_eq : exp = (bits.toNat / 2 ^ 23 % 2 ^ 8 : Nat) := congrArg Nat.cast exponent
  have new_eq : newExp = (bits.toNat / 2 ^ 23 % 2 ^ 8 : Nat) - 112 := by
    simp only [newExp, exp_eq]
    omega
  by_cases ones : bits.toNat / 2 ^ 23 % 2 ^ 8 = 255
  · rw [if_pos (by omega), if_pos ones]
    by_cases none : bits.toNat % 2 ^ 23 = 0
    · have zero : mant = 0 := UInt32.toNat_inj.mp (mantissa.trans none)
      rw [if_neg (not_not.mpr zero), if_pos none]
      exact or_sign sign rfl (by decide)
    · have nonzero : mant ≠ 0 := fun zero => none (mantissa.symm.trans (congrArg UInt32.toNat zero))
      rw [if_pos nonzero, if_neg none]
      exact or_sign sign rfl (by decide)
  · rw [if_neg (by omega), if_neg ones]
    by_cases large : 143 ≤ bits.toNat / 2 ^ 23 % 2 ^ 8
    · rw [if_pos (by omega), if_pos large]
      exact or_sign sign rfl (by decide)
    · rw [if_neg (by omega), if_neg large]
      by_cases low : bits.toNat / 2 ^ 23 % 2 ^ 8 ≤ 112
      · rw [if_pos (by omega), if_pos low]
        by_cases tiny : bits.toNat / 2 ^ 23 % 2 ^ 8 < 102
        · rw [if_pos (by omega), if_pos tiny]
          exact sign.trans (Nat.add_zero _).symm
        · rw [if_neg (by omega), if_neg tiny]
          have bound := narrowedHalf_lt (bits.toNat / 2 ^ 23 % 2 ^ 8) least
          rw [narrowedHalf, if_neg ones, if_neg large, if_pos low, if_neg tiny] at bound
          exact or_sign sign (narrow_denormalized mantissa least (by omega) (by omega)) bound
      · rw [if_neg (by omega), if_neg low]
        exact narrow_normal sign (by omega) (by omega) mantissa least

end

/-- Not a number. -/
def NotANumber (x : Fields) : Prop := x.exponent = 31 ∧ x.mantissa ≠ 0

instance (x : Fields) : Decidable (NotANumber x) := inferInstanceAs (Decidable (_ ∧ _))

section
variable {h : UInt16} {x : Fields}

theorem half_fits (h : UInt16) : (half.fields h.toNat).exponent < 32 ∧
    (half.fields h.toNat).mantissa < 1024 :=
  Format.fits_fields

theorem half_join (h : UInt16) : half.join (half.fields h.toNat) = h.toNat :=
  Format.join_fields h.toNat_lt

/-- The exponent an unchanged number has in single precision. -/
def rebiased (exponent : Nat) : Nat :=
  if exponent = 0 then 0 else if exponent = 31 then 255 else exponent + 112

theorem rebiased_fits (small : x.exponent < 32) (least : x.mantissa < 1024) :
    single.Fits ⟨x.negative, rebiased x.exponent, x.mantissa * 2 ^ 13⟩ := by
  constructor
  · simp only [single, rebiased]
    split
    · decide
    · split <;> omega
  · simp only [single]
    omega

/-- Every pattern but the subnormal ones is widened to the same number. -/
theorem widen_exact (plain : ¬ Subnormal (half.fields h.toNat)) :
    single.decode (fp16BitsToFp32Bits h).toNat = half.decode h.toNat := by
  obtain ⟨small, least⟩ := half_fits h
  rw [fp16BitsToFp32Bits_eq rfl plain]
  change single.decode (single.join ⟨_, rebiased _, _⟩) = half.datum _
  rw [Format.decode_join (rebiased_fits small least)]
  generalize half.fields h.toNat = x at *
  by_cases zero : x.exponent = 0
  · have none : x.mantissa = 0 := by
      by_contra some_
      exact plain ⟨zero, some_⟩
    simp [Format.datum, rebiased, zero, none, single, half, Format.significand, scaled]
  · by_cases ones : x.exponent = 31
    · simp [Format.datum, rebiased, ones, single, half]
    · apply Format.datum_eq_of_shift (k := 13)
      · rfl
      · simpa [half] using ones
      · simp only [single, rebiased, if_neg zero, if_neg ones]
        omega
      · simp only [Format.significand, single, half, rebiased, if_neg zero, if_neg ones]
        rw [if_neg (by omega)]
        omega
      · simp only [Format.place, single, half, rebiased, if_neg zero, if_neg ones]
        omega

/-- A subnormal is widened to half its value. -/
theorem widen_subnormal (subnormal : Subnormal (half.fields h.toNat)) :
    single.decode (fp16BitsToFp32Bits h).toNat ≠ half.decode h.toNat := by
  obtain ⟨k, one, most, reached, under, widened⟩ := fp16BitsToFp32Bits_subnormal rfl subnormal
  obtain ⟨zero, some_⟩ := subnormal
  rw [widened]
  change _ ≠ half.datum _
  generalize half.fields h.toNat = x at *
  have fits : single.Fits ⟨x.negative, 112 - k, (x.mantissa * 2 ^ k - 2 ^ 10) * 2 ^ 13⟩ := by
    constructor
    · change 112 - k < 2 ^ 8
      omega
    · change (x.mantissa * 2 ^ k - 2 ^ 10) * 2 ^ 13 < 2 ^ 23
      omega
  have significand : single.significand ⟨x.negative, 112 - k, (x.mantissa * 2 ^ k - 2 ^ 10) * 2 ^ 13⟩ =
      x.mantissa * 2 ^ (k + 13) := by
    have normal : 112 - k ≠ 0 := by omega
    rw [Format.significand, if_neg normal, Nat.pow_add, ← Nat.mul_assoc]
    change 2 ^ 23 + (x.mantissa * 2 ^ k - 2 ^ 10) * 2 ^ 13 = x.mantissa * 2 ^ k * 2 ^ 13
    omega
  have place : single.place ⟨x.negative, 112 - k, (x.mantissa * 2 ^ k - 2 ^ 10) * 2 ^ 13⟩ =
      half.place x - 1 - (k + 13 : Nat) := by
    simp only [Format.place, single, half, zero]
    omega
  rw [Format.decode_join fits, Format.datum, Format.datum, if_neg (by simp only [single]; omega),
    if_neg (by simp [half, zero]), significand, place, scaled_shift, scaled_half]
  intro same
  have magnitudes := (Datum.finite.inj same).2
  have positive : 0 < scaled x.mantissa (half.place x) := scaled_pos (by omega)
  rw [Format.significand, if_pos zero] at magnitudes
  linarith

theorem narrowed_rebiased {exponent mantissa : Nat} (small : exponent < 32)
    (plain : exponent = 0 → mantissa = 0) (quiet : exponent = 31 → mantissa ≠ 0 → mantissa = 2 ^ 9) :
    narrowedHalf (rebiased exponent) (mantissa * 2 ^ 13) = exponent * 2 ^ 10 + mantissa := by
  unfold narrowedHalf rebiased
  by_cases zero : exponent = 0
  · rw [if_pos zero, plain zero, zero]
    decide
  · rw [if_neg zero]
    by_cases ones : exponent = 31
    · rw [if_pos ones, if_pos rfl, ones]
      by_cases none : mantissa = 0
      · rw [none]
        decide
      · rw [quiet ones none]
        decide
    · rw [if_neg ones, if_neg (by omega), if_neg (by omega), if_neg (by omega)]
      omega

/-- What a cast to half precision leaves: numbers, and the one NaN there is of each sign. -/
def Quiet (x : Fields) : Prop := NotANumber x → x.mantissa = 2 ^ 9

theorem Quiet.payload (quiet : Quiet x) (small : x.exponent < 32) (ones : rebiased x.exponent = 255)
    (some_ : x.mantissa ≠ 0) : x.mantissa = 2 ^ 9 := by
  refine quiet ⟨?_, some_⟩
  unfold rebiased at ones
  split at ones
  · contradiction
  · split at ones
    · assumption
    · omega

/-- What was widened to the same number is narrowed to where it came from. -/
theorem narrow_widen (plain : ¬ Subnormal (half.fields h.toNat)) (quiet : Quiet (half.fields h.toNat)) :
    fp32BitsToFp16Bits (fp16BitsToFp32Bits h) = h := by
  obtain ⟨small, least⟩ := half_fits h
  have widened : single.fields (fp16BitsToFp32Bits h).toNat = ⟨(half.fields h.toNat).negative,
      rebiased (half.fields h.toNat).exponent, (half.fields h.toNat).mantissa * 2 ^ 13⟩ := by
    rw [fp16BitsToFp32Bits_eq rfl plain]
    exact Format.fields_join (rebiased_fits small least)
  have joined : ((half.fields h.toNat).negative.toNat * 2 ^ 5 + (half.fields h.toNat).exponent) * 2 ^ 10 +
      (half.fields h.toNat).mantissa = h.toNat := half_join h
  apply UInt16.toNat_inj.mp
  rw [fp32BitsToFp16Bits_eq widened]
  simp only
  rw [narrowed_rebiased small]
  · refine Eq.trans ?_ joined
    ring
  · intro zero
    by_contra some_
    exact plain ⟨zero, some_⟩
  · intro ones some_
    exact quiet ⟨ones, some_⟩

/-- The parts of what narrowing makes. -/
theorem narrow_fields {bits : UInt32} (parts : single.fields bits.toNat = x) :
    half.fields (fp32BitsToFp16Bits bits).toNat =
      ⟨x.negative, narrowedHalf x.exponent x.mantissa / 2 ^ 10,
        narrowedHalf x.exponent x.mantissa % 2 ^ 10⟩ := by
  have least : x.mantissa < 2 ^ 23 := by
    rw [← parts]
    exact Format.fits_fields.2
  have bound := narrowedHalf_lt x.exponent least
  have joined : (fp32BitsToFp16Bits bits).toNat = half.join
      ⟨x.negative, narrowedHalf x.exponent x.mantissa / 2 ^ 10,
        narrowedHalf x.exponent x.mantissa % 2 ^ 10⟩ := by
    rw [fp32BitsToFp16Bits_eq parts]
    change _ = (x.negative.toNat * 2 ^ 5 + narrowedHalf x.exponent x.mantissa / 2 ^ 10) * 2 ^ 10 +
      narrowedHalf x.exponent x.mantissa % 2 ^ 10
    omega
  rw [joined]
  apply Format.fields_join
  constructor
  · change _ / 2 ^ 10 < 2 ^ 5
    omega
  · exact Nat.mod_lt _ (by decide)

theorem narrow_quiet (bits : UInt32) : Quiet (half.fields (fp32BitsToFp16Bits bits).toNat) := by
  have least : (single.fields bits.toNat).mantissa < 2 ^ 23 := Format.fits_fields.2
  rw [narrow_fields rfl]
  generalize single.fields bits.toNat = x at *
  rintro ⟨ones, some_⟩
  simp only at ones some_ ⊢
  have narrowed : narrowedHalf x.exponent x.mantissa ≤ 31 * 2 ^ 10 ∨
      narrowedHalf x.exponent x.mantissa = 31 * 2 ^ 10 + 2 ^ 9 := by
    unfold narrowedHalf
    split
    · split
      · exact .inl (Nat.le_refl _)
      · exact .inr rfl
    · split
      · exact .inl (Nat.le_refl _)
      · split
        · split
          · exact .inl (Nat.zero_le _)
          · extract_lets m
            have less : m < 2 ^ 24 := Nat.lt_of_le_of_lt (Nat.div_le_self ..) (by omega)
            omega
        · omega
  omega

/-- The bf16 numbers that land on a normal half are on it. -/
theorem narrowedHalf_brain (exponent : Nat) {fraction : Nat} (least : fraction < 2 ^ 7) :
    narrowedHalf exponent (fraction * 2 ^ 16) % 2 ^ 3 = 0 ∨
      0 < narrowedHalf exponent (fraction * 2 ^ 16) ∧ narrowedHalf exponent (fraction * 2 ^ 16) < 2 ^ 10 := by
  unfold narrowedHalf
  by_cases ones : exponent = 255
  · rw [if_pos ones]
    split
    · exact .inl rfl
    · exact .inl rfl
  · rw [if_neg ones]
    by_cases large : 143 ≤ exponent
    · rw [if_pos large]
      exact .inl rfl
    · rw [if_neg large]
      by_cases low : exponent ≤ 112
      · rw [if_pos low]
        by_cases tiny : exponent < 102
        · rw [if_pos tiny]
          exact .inl rfl
        · rw [if_neg tiny]
          extract_lets m
          have most : m ≤ (2 ^ 23 + 127 * 2 ^ 16) / 2 := by
            apply Nat.div_le_div (by omega)
            · exact Nat.le_self_pow (by omega) 2
            · decide
          have some_ : 2 ^ 23 / 2 ^ 11 ≤ m := by
            apply Nat.div_le_div (by omega)
            · exact Nat.pow_le_pow_right (by decide) (by omega)
            · exact Nat.pos_iff_ne_zero.mp (Nat.two_pow_pos _)
          omega
      · rw [if_neg low]
        omega

/-- A single that ends where a bf16 does is narrowed to it and nothing is lost. -/
theorem fp32BitsToBf16Bits_exact {bits : UInt32} (low : bits.toNat % 2 ^ 16 = 0)
    (quiet : 0x7F800000 < bits.toNat % 2 ^ 31 → bits.toNat / 2 ^ 22 % 2 = 1) :
    UInt32.ofNat ((fp32BitsToBf16Bits bits).toNat * 2 ^ 16) = bits := by
  have small := bits.toNat_lt
  have abs : (bits &&& 0x7FFFFFFF).toNat = bits.toNat % 2 ^ 31 := by
    have low : bits.toNat &&& 2147483647 = bits.toNat % 2 ^ 31 := Nat.and_two_pow_sub_one_eq_mod _ 31
    simp only [UInt32.toNat_and, UInt32.reduceToNat, low]
  have kept : (fp32BitsToBf16Bits bits).toNat = bits.toNat / 2 ^ 16 := by
    unfold fp32BitsToBf16Bits
    by_cases nan : bits &&& 0x7FFFFFFF > 0x7F800000
    · rw [if_pos nan]
      have exceeds := UInt32.lt_iff_toNat_lt.mp nan
      rw [abs] at exceeds
      have set_ := quiet exceeds
      have bit : (bits.toNat / 2 ^ 16).testBit 6 = true := by
        rw [Nat.testBit_eq_decide_div_mod_eq, Nat.div_div_eq_div_mul]
        simpa using set_
      have same : (bits.toNat / 2 ^ 16 ||| 64) = bits.toNat / 2 ^ 16 := by
        apply Nat.eq_of_testBit_eq
        intro i
        rw [Nat.testBit_or, (by rfl : 64 = 2 ^ 6), Nat.testBit_two_pow]
        by_cases here : 6 = i
        · rw [← here, bit]
          simp
        · simp [here]
      have short : bits.toNat / 2 ^ 16 % 2 ^ 16 = bits.toNat / 2 ^ 16 := by
        apply Nat.mod_eq_of_lt
        omega
      simp only [UInt16.toNat_or, UInt32.toNat_toUInt16, UInt32.toNat_shiftRight, UInt32.reduceToNat,
        UInt16.reduceToNat, Nat.reduceMod, Nat.shiftRight_eq_div_pow, short, same]
    · rw [if_neg nan]
      have bit : ((bits >>> 16) &&& 1).toNat = bits.toNat / 2 ^ 16 % 2 := by
        have low : bits.toNat / 2 ^ 16 &&& 1 = bits.toNat / 2 ^ 16 % 2 ^ 1 :=
          Nat.and_two_pow_sub_one_eq_mod _ 1
        simp only [UInt32.toNat_and, UInt32.toNat_shiftRight, UInt32.reduceToNat, Nat.reduceMod,
          Nat.shiftRight_eq_div_pow, low, Nat.pow_one]
      have bias : (bits.toNat / 2 ^ 16 % 2 + 32767) % 2 ^ 32 = bits.toNat / 2 ^ 16 % 2 + 32767 := by omega
      have sum : (bits.toNat + (bits.toNat / 2 ^ 16 % 2 + 32767)) % 2 ^ 32 =
          bits.toNat + (bits.toNat / 2 ^ 16 % 2 + 32767) := by
        apply Nat.mod_eq_of_lt
        omega
      simp only [UInt32.toNat_toUInt16, UInt32.toNat_shiftRight, UInt32.toNat_add, bit, UInt32.reduceToNat,
        Nat.reduceMod, Nat.shiftRight_eq_div_pow, bias, sum]
      obtain ⟨q, whole⟩ := Nat.dvd_of_mod_eq_zero low
      have up : ∀ r < 2 ^ 16, (2 ^ 16 * q + r) / 2 ^ 16 = q := by
        intro r less
        omega
      rw [whole, up _ (by omega), Nat.mul_div_cancel_left _ (by decide)]
      omega
  apply UInt32.toNat_inj.mp
  rw [UInt32.toNat_ofNat', kept]
  omega

end

/-! Buffers: one element after the other. -/

def halves (data : Bytes) : List UInt16 := (chunks 2 data).map u16

def singles (data : Bytes) : List UInt32 := (chunks 4 data).map u32

def ofHalves (hs : List UInt16) : Bytes := hs.flatMap fun h => leBytes 2 h.toNat

def ofSingles (ws : List UInt32) : Bytes := ws.flatMap fun w => leBytes 4 w.toNat

def ofDoubles (ds : List UInt64) : Bytes := ds.flatMap fun d => leBytes 8 d.toNat

theorem u16_leBytes (h : UInt16) : u16 (leBytes 2 h.toNat) = h := by
  rw [u16, ofLeBytes_leBytes (by simpa using h.toNat_lt)]
  exact UInt16.ofNat_toNat

theorem u32_leBytes (w : UInt32) : u32 (leBytes 4 w.toNat) = w := by
  rw [u32, ofLeBytes_leBytes (by simpa using w.toNat_lt)]
  exact UInt32.ofNat_toNat

theorem u64_leBytes (d : UInt64) : u64 (leBytes 8 d.toNat) = d := by
  rw [u64, ofLeBytes_leBytes (by simpa using d.toNat_lt)]
  exact UInt64.ofNat_toNat

theorem halves_ofHalves (hs : List UInt16) : halves (ofHalves hs) = hs := by
  rw [halves, ofHalves, chunks_flatMap (by decide) (fun h => by simp), List.map_map]
  simp [Function.comp_def, u16_leBytes]

theorem singles_ofSingles (ws : List UInt32) : singles (ofSingles ws) = ws := by
  rw [singles, ofSingles, chunks_flatMap (by decide) (fun w => by simp), List.map_map]
  simp [Function.comp_def, u32_leBytes]

theorem ofHalves_halves {data : Bytes} (whole : Whole 2 data) : ofHalves (halves data) = data := by
  have pieces : (chunks 2 data).map (fun piece => leBytes 2 (u16 piece).toNat) = chunks 2 data := by
    refine (List.map_congr_left fun piece there => ?_).trans (List.map_id _)
    have two := length_of_mem_chunks whole there
    have small := ofLeBytes_lt piece
    have back := leBytes_ofLeBytes piece
    rw [two] at small back
    rw [u16, UInt16.toNat_ofNat', Nat.mod_eq_of_lt (by simpa using small), back, id]
  rw [ofHalves, halves, List.flatMap_map, List.flatMap_def, pieces, flatten_chunks (by decide)]

theorem ofSingles_singles {data : Bytes} (whole : Whole 4 data) : ofSingles (singles data) = data := by
  have pieces : (chunks 4 data).map (fun piece => leBytes 4 (u32 piece).toNat) = chunks 4 data := by
    refine (List.map_congr_left fun piece there => ?_).trans (List.map_id _)
    have four := length_of_mem_chunks whole there
    have small := ofLeBytes_lt piece
    have back := leBytes_ofLeBytes piece
    rw [four] at small back
    rw [u32, UInt32.toNat_ofNat', Nat.mod_eq_of_lt (by simpa using small), back, id]
  rw [ofSingles, singles, List.flatMap_map, List.flatMap_def, pieces, flatten_chunks (by decide)]

/-- One pass over elements laid end to end. -/
theorem convert_flatMap {α : Type} {name : String} {width : Nat} {element block : α → Bytes}
    {pass : Bytes → Bytes} (positive : 0 < width) (whole : ∀ a, (block a).length = width)
    (each : ∀ a, pass (block a) = element a) (items : List α) :
    convert name width pass (items.flatMap block) = .ok (items.flatMap element) := by
  have fine : (items.flatMap block).length % width = 0 := whole_flatMap whole items
  rw [convert, if_neg (not_ne_iff.mpr fine), chunks_flatMap positive whole, List.flatMap_map]
  simp only [each]

theorem whole_of_convert {name : String} {width : Nat} {pass : Bytes → Bytes} {data out : Bytes}
    (made : convert name width pass data = .ok out) : Whole width data := by
  unfold convert at made
  split at made
  · contradiction
  · rename_i fine
    exact not_ne_iff.mp fine

theorem fp16ToFp32_ofHalves (hs : List UInt16) :
    fp16ToFp32 (ofHalves hs) = .ok (ofSingles (hs.map fp16BitsToFp32Bits)) := by
  rw [ofSingles, List.flatMap_map]
  exact convert_flatMap (by decide) (fun h => by simp) (fun h => by rw [u16_leBytes]) hs

theorem fp32ToFp16_ofSingles (ws : List UInt32) :
    fp32ToFp16 (ofSingles ws) = .ok (ofHalves (ws.map fp32BitsToFp16Bits)) := by
  rw [ofHalves, List.flatMap_map]
  exact convert_flatMap (by decide) (fun w => by simp) (fun w => by rw [u32_leBytes]) ws

theorem fp32ToBf16_ofSingles (ws : List UInt32) :
    fp32ToBf16 (ofSingles ws) = .ok (ofHalves (ws.map fp32BitsToBf16Bits)) := by
  rw [ofHalves, List.flatMap_map]
  exact convert_flatMap (by decide) (fun w => by simp) (fun w => by rw [u32_leBytes]) ws

theorem fp32ToFp64_ofSingles (ws : List UInt32) :
    fp32ToFp64 (ofSingles ws) = .ok (ofDoubles (ws.map f32AsF64)) := by
  rw [ofDoubles, List.flatMap_map]
  exact convert_flatMap (by decide) (fun w => by simp) (fun w => by rw [u32_leBytes]) ws

theorem fp64ToFp32_ofDoubles (ds : List UInt64) :
    fp64ToFp32 (ofDoubles ds) = .ok (ofSingles (ds.map f64AsF32)) := by
  rw [ofSingles, List.flatMap_map]
  exact convert_flatMap (by decide) (fun d => by simp) (fun d => by rw [u64_leBytes]) ds

/-- A bf16 number, widened by its sixteen zeros. -/
def ofBrain (b : UInt16) : UInt32 := UInt32.ofNat (b.toNat * 2 ^ 16)

theorem toNat_ofBrain (b : UInt16) : (ofBrain b).toNat = b.toNat * 2 ^ 16 := by
  have small := b.toNat_lt
  rw [ofBrain, UInt32.toNat_ofNat', Nat.mod_eq_of_lt (by omega)]

theorem bf16ToFp32_ofHalves (bs : List UInt16) :
    bf16ToFp32 (ofHalves bs) = .ok (ofSingles (bs.map ofBrain)) := by
  rw [ofSingles, List.flatMap_map]
  exact convert_flatMap (by decide) (fun b => by simp) (fun b => by rw [u16_leBytes, toNat_ofBrain]) bs

/-- Halves whose widening is exact and undone: element by element the same number, and
the same pattern when narrowed; so a tensor stored as them, loaded and saved again is
stored as the same bytes. -/
structure ExactlyUndone (b : Bytes) : Prop where
  widened : ∃ wide, fp16ToFp32 b = .ok wide ∧
    List.Forall₂ (fun w h => single.decode w.toNat = half.decode h.toNat) (singles wide) (halves b)
  narrowed : ∃ wide back, fp16ToFp32 b = .ok wide ∧ fp32ToFp16 wide = .ok back ∧
    List.Forall₂ (fun h' h => ¬ NotANumber (half.fields h.toNat) → h' = h) (halves back) (halves b)
  saved : ∀ data src loaded, src ≠ "float16" → castTensor data src .float16 = .ok (b, "float16", none) →
    uncastTensor b "float16" src none = .ok loaded → castTensor loaded src .float16 = .ok (b, "float16", none)

section
variable {hs : List UInt16} {b data loaded : Bytes} {src : String}

/-- A cast to half precision from something else narrows singles. -/
theorem castTensor_float16 (other : src ≠ "float16")
    (cast : castTensor data src .float16 = .ok (b, "float16", none)) :
    isCastableFloat src = true ∧ ∃ wide, widenToFp32 data src = .ok wide ∧ fp32ToFp16 wide = .ok b := by
  unfold castTensor at cast
  rw [if_neg (by decide)] at cast
  split at cast
  · simp only [Except.ok.injEq, Prod.mk.injEq] at cast
    exact absurd cast.2.1 other
  · rename_i castable
    push Not at castable
    refine ⟨castable.2, ?_⟩
    change (if src = "float32" then _ else _) = _ at cast
    split at cast
    · rename_i single
      simp only [bind_eq_ok, pure_eq_ok, Prod.mk.injEq] at cast
      obtain ⟨stored, narrowed, rfl, -, -⟩ := cast
      exact ⟨data, by rw [single]; rfl, narrowed⟩
    · simp only [bind_eq_ok, pure_eq_ok, Prod.mk.injEq] at cast
      obtain ⟨wide, widened, stored, narrowed, rfl, -, -⟩ := cast
      exact ⟨wide, widened, narrowed⟩

/-- And back: what narrows to `b` is cast to it. -/
theorem castTensor_of_narrow {wide : Bytes} (other : src ≠ "float16") (castable : isCastableFloat src = true)
    (widened : widenToFp32 data src = .ok wide) (narrowed : fp32ToFp16 wide = .ok b) :
    castTensor data src .float16 = .ok (b, "float16", none) := by
  have narrow : narrowFromFp32 wide "float16" = .ok b := narrowed
  unfold castTensor
  rw [if_neg (by decide), if_neg (by simpa [DType.toStr, other] using castable)]
  change (if src = "float32" then _ else _) = _
  split
  · rename_i single
    obtain rfl : data = wide := by
      rw [single] at widened
      exact Except.ok.inj widened
    simp [DType.toStr, narrow]
  · simp [widened, DType.toStr, narrow]

theorem uncastTensor_float16 (other : src ≠ "float16") (castable : isCastableFloat src = true)
    (back : uncastTensor b "float16" src none = .ok loaded) :
    ∃ wide, fp16ToFp32 b = .ok wide ∧ narrowFromFp32 wide src = .ok loaded := by
  unfold uncastTensor at back
  rw [if_neg (Ne.symm other)] at back
  change (if _ then _ else _) = _ at back
  have both : ¬ (¬ isCastableFloat "float16" = true ∨ ¬ isCastableFloat src = true) := by
    rw [castable]
    decide
  rw [if_neg both, if_neg (by decide)] at back
  split at back
  · rename_i single
    exact ⟨loaded, back, by rw [single]; rfl⟩
  · obtain ⟨wide, widened, narrowed⟩ := bind_eq_ok.mp back
    exact ⟨wide, widened, narrowed⟩

/-- Quiet numbers that are not subnormal come back from singles. -/
theorem narrow_widened (plain : ∀ h ∈ hs, ¬ Subnormal (half.fields h.toNat))
    (quiet : ∀ h ∈ hs, Quiet (half.fields h.toNat)) :
    fp32ToFp16 (ofSingles (hs.map fp16BitsToFp32Bits)) = .ok (ofHalves hs) := by
  rw [fp32ToFp16_ofSingles, List.map_map]
  congr 2
  exact (List.map_congr_left fun h there => narrow_widen (plain h there) (quiet h there)).trans
    (List.map_id _)

/-- A half that was narrowed from a bf16 number goes through bf16 unchanged. -/
theorem brain_widened {x : UInt16}
    (plain : ¬ Subnormal (half.fields (fp32BitsToFp16Bits (ofBrain x)).toNat)) :
    ofBrain (fp32BitsToBf16Bits (fp16BitsToFp32Bits (fp32BitsToFp16Bits (ofBrain x)))) =
      fp16BitsToFp32Bits (fp32BitsToFp16Bits (ofBrain x)) := by
  have quiet := narrow_quiet (ofBrain x)
  obtain ⟨small, least⟩ := half_fits (fp32BitsToFp16Bits (ofBrain x))
  have widened := fp16BitsToFp32Bits_eq rfl plain
  change _ = single.join ⟨_, rebiased _, _⟩ at widened
  have eighth : (half.fields (fp32BitsToFp16Bits (ofBrain x)).toNat).mantissa % 2 ^ 3 = 0 := by
    have fraction : (single.fields (ofBrain x).toNat).mantissa = x.toNat % 2 ^ 7 * 2 ^ 16 := by
      rw [single_fields, toNat_ofBrain]
      simp only
      omega
    have brain := narrowedHalf_brain (single.fields (ofBrain x).toNat).exponent
      (Nat.mod_lt x.toNat (by decide : 0 < 2 ^ 7))
    rw [← fraction] at brain
    rw [narrow_fields rfl] at plain ⊢
    rcases brain with eighth | ⟨some_, under⟩
    · simp only
      omega
    · refine absurd ⟨Nat.div_eq_of_lt under, ?_⟩ plain
      simp only
      omega
  generalize half.fields (fp32BitsToFp16Bits (ofBrain x)).toNat = y at *
  have wide : (fp16BitsToFp32Bits (fp32BitsToFp16Bits (ofBrain x))).toNat =
      (y.negative.toNat * 2 ^ 8 + rebiased y.exponent) * 2 ^ 23 + y.mantissa * 2 ^ 13 := widened
  have fits : rebiased y.exponent < 2 ^ 8 := (rebiased_fits small least).1
  apply fp32BitsToBf16Bits_exact
  · rw [wide]
    omega
  · rw [wide]
    intro nan
    have ones : rebiased y.exponent = 255 ∧ y.mantissa ≠ 0 := by omega
    rw [quiet.payload small ones.1 ones.2, ones.1]
    omega

theorem single_within_double : single.Within double := by
  constructor <;> decide

/-- A single goes through a double unchanged, unless it is a NaN yet to be made quiet. -/
theorem f64AsF32_f32AsF64 {w : UInt32}
    (quiet : single.inf < single.code w.toNat → single.inf + 2 ^ 22 ≤ single.code w.toNat) :
    f64AsF32 (f32AsF64 w) = w := by
  have doubled : (f32AsF64 w).toNat = single.convert double w.toNat := by
    have small : single.convert double w.toNat < 2 ^ 64 := Format.convert_lt (by decide)
    rw [f32AsF64, UInt64.toNat_ofNat', Nat.mod_eq_of_lt small]
  rw [f64AsF32, doubled, single_within_double.convert_convert w.toNat_lt quiet]
  exact UInt32.ofNat_toNat

/-- So does a widened half, the NaN among them being quiet. -/
theorem double_widened {h : UInt16} (plain : ¬ Subnormal (half.fields h.toNat))
    (quiet : Quiet (half.fields h.toNat)) :
    f64AsF32 (f32AsF64 (fp16BitsToFp32Bits h)) = fp16BitsToFp32Bits h := by
  obtain ⟨small, least⟩ := half_fits h
  have widened := fp16BitsToFp32Bits_eq rfl plain
  change _ = single.join ⟨_, rebiased _, _⟩ at widened
  generalize half.fields h.toNat = y at *
  have wide : (fp16BitsToFp32Bits h).toNat =
      (y.negative.toNat * 2 ^ 8 + rebiased y.exponent) * 2 ^ 23 + y.mantissa * 2 ^ 13 := widened
  have fits : rebiased y.exponent < 2 ^ 8 := (rebiased_fits small least).1
  apply f64AsF32_f32AsF64
  change 255 * 2 ^ 23 < _ % 2 ^ 31 → 255 * 2 ^ 23 + 2 ^ 22 ≤ _ % 2 ^ 31
  rw [wide]
  intro nan
  have ones : rebiased y.exponent = 255 ∧ y.mantissa ≠ 0 := by omega
  rw [quiet.payload small ones.1 ones.2, ones.1]
  omega

/-- What narrows to halves that are not subnormal is stored as the same bytes after it
was loaded. -/
theorem saved_again (plain : ∀ h ∈ hs, ¬ Subnormal (half.fields h.toNat)) (other : src ≠ "float16")
    (cast : castTensor data src .float16 = .ok (ofHalves hs, "float16", none))
    (back : uncastTensor (ofHalves hs) "float16" src none = .ok loaded) :
    castTensor loaded src .float16 = .ok (ofHalves hs, "float16", none) := by
  obtain ⟨castable, wide, widened, narrowed⟩ := castTensor_float16 other cast
  obtain ⟨wide', same, unloaded⟩ := uncastTensor_float16 other castable back
  rw [fp16ToFp32_ofHalves] at same
  obtain rfl := Except.ok.inj same
  have from_ : ∀ ws : List UInt32, wide = ofSingles ws → hs = ws.map fp32BitsToFp16Bits := by
    rintro ws rfl
    rw [fp32ToFp16_ofSingles] at narrowed
    have bytes := congrArg halves (Except.ok.inj narrowed)
    rw [halves_ofHalves, halves_ofHalves] at bytes
    exact bytes.symm
  have quiet : ∀ h ∈ hs, Quiet (half.fields h.toNat) := by
    have made := from_ (singles wide) (ofSingles_singles (whole_of_convert narrowed)).symm
    intro h there
    rw [made] at there
    obtain ⟨w, -, rfl⟩ := List.mem_map.mp there
    exact narrow_quiet w
  have again := narrow_widened plain quiet
  rcases castable_cases castable with rfl | rfl | rfl | rfl
  · obtain rfl := Except.ok.inj unloaded
    exact castTensor_of_narrow other castable rfl again
  · contradiction
  · have read : bf16ToFp32 data = .ok wide := widened
    rw [← ofHalves_halves (whole_of_convert read), bf16ToFp32_ofHalves] at read
    have made := from_ _ (Except.ok.inj read).symm
    have shrunk : fp32ToBf16 (ofSingles (hs.map fp16BitsToFp32Bits)) = .ok loaded := unloaded
    rw [fp32ToBf16_ofSingles, List.map_map] at shrunk
    obtain rfl := Except.ok.inj shrunk
    refine castTensor_of_narrow other castable (bf16ToFp32_ofHalves _) ?_
    rw [List.map_map, ← again]
    congr 2
    apply List.map_congr_left
    intro h there
    have normal := plain h there
    rw [made] at there
    obtain ⟨w, among, rfl⟩ := List.mem_map.mp there
    obtain ⟨x, -, rfl⟩ := List.mem_map.mp among
    exact brain_widened normal
  · have doubled : fp32ToFp64 (ofSingles (hs.map fp16BitsToFp32Bits)) = .ok loaded := unloaded
    rw [fp32ToFp64_ofSingles, List.map_map] at doubled
    obtain rfl := Except.ok.inj doubled
    refine castTensor_of_narrow other castable (fp64ToFp32_ofDoubles _) ?_
    rw [List.map_map, ← again]
    congr 2
    apply List.map_congr_left
    intro h there
    exact double_widened (plain h there) (quiet h there)

/-- The widening of halves is exact and undone when, and only when, none of them is
subnormal: those are widened to half their value. -/
theorem exactlyUndone_iff (whole : Whole 2 b) :
    ExactlyUndone b ↔ ∀ h ∈ halves b, ¬ Subnormal (half.fields h.toNat) := by
  have laid := ofHalves_halves whole
  generalize halves b = hs at laid
  subst laid
  constructor
  · intro undone h there subnormal
    obtain ⟨wide, widened, same⟩ := undone.widened
    rw [fp16ToFp32_ofHalves] at widened
    obtain rfl := Except.ok.inj widened
    rw [singles_ofSingles, halves_ofHalves, List.forall₂_map_left_iff, List.forall₂_same] at same
    exact widen_subnormal subnormal (same h there)
  · intro plain
    have widened := fp16ToFp32_ofHalves hs
    constructor
    · refine ⟨_, widened, ?_⟩
      rw [singles_ofSingles, halves_ofHalves, List.forall₂_map_left_iff, List.forall₂_same]
      exact fun h there => widen_exact (plain h there)
    · refine ⟨_, _, widened, fp32ToFp16_ofSingles _, ?_⟩
      rw [halves_ofHalves, halves_ofHalves, List.map_map, List.forall₂_map_left_iff, List.forall₂_same]
      exact fun h there number => narrow_widen (plain h there) fun nan => absurd nan number
    · intro data src loaded other cast back
      exact saved_again plain other cast back

end

/-- One, as a half. -/
theorem exactlyUndone_one : ExactlyUndone [0x00, 0x3C] := by
  have whole : Whole 2 [0x00, 0x3C] := rfl
  have alone : halves [0x00, 0x3C] = [0x3C00] := rfl
  rw [exactlyUndone_iff whole, alone]
  intro h there
  rw [List.mem_singleton.mp there]
  decide

/-- 2⁻¹⁵ is subnormal: it is widened to 2⁻¹⁶, and comes back as that. -/
theorem subnormal_halved :
    fp16ToFp32 [0x00, 0x02] = .ok [0x00, 0x00, 0x80, 0x37] ∧
      fp32ToFp16 [0x00, 0x00, 0x80, 0x37] = .ok [0x00, 0x01] ∧
      half.decode 0x0200 = .finite false (1 / 2 ^ 15) ∧
        single.decode 0x37800000 = .finite false (1 / 2 ^ 16) ∧
      ¬ ExactlyUndone [0x00, 0x02] := by
  have widened : fp16ToFp32 [0x00, 0x02] = .ok [0x00, 0x00, 0x80, 0x37] := by decide +kernel
  have was : half.decode 0x0200 = .finite false (1 / 2 ^ 15) := by
    simp [Format.decode, Format.fields, Format.datum, Format.significand, Format.place, half, scaled]
    norm_num
  have is_ : single.decode 0x37800000 = .finite false (1 / 2 ^ 16) := by
    simp [Format.decode, Format.fields, Format.datum, Format.significand, Format.place, single, scaled]
    norm_num
  refine ⟨widened, by decide +kernel, was, is_, fun undone => ?_⟩
  obtain ⟨wide, same, numbers⟩ := undone.widened
  rw [widened] at same
  obtain rfl := Except.ok.inj same
  have two : halves [0x00, 0x02] = [0x0200] := by decide +kernel
  have four : singles [0x00, 0x00, 0x80, 0x37] = [0x37800000] := by decide +kernel
  rw [two, four, List.forall₂_cons] at numbers
  have first : single.decode 0x37800000 = half.decode 0x0200 := numbers.1
  rw [was, is_] at first
  norm_num at first

end Cast
end Moonclip
