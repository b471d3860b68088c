import Moonclip.Narrowing

/-! The two float8 encodings as roundings: one routine, two sets of constants. -/
namespace Moonclip
open Library.Floating Library.Rounding

namespace Cast

section
variable {value : UInt32} {n : Nat}

theorem toNat_one_shiftLeft (small : n < 32) : ((1 : UInt32) <<< UInt32.ofNat n).toNat = 2 ^ n := by
  have power : 2 ^ n < 2 ^ 32 := Nat.pow_lt_pow_right (by decide) small
  rw [UInt32.toNat_shiftLeft, UInt32.toNat_ofNat', Nat.mod_eq_of_lt (by omega : n < 2 ^ 32),
    Nat.mod_eq_of_lt small, Nat.shiftLeft_eq, UInt32.toNat_one, Nat.one_mul, Nat.mod_eq_of_lt power]

theorem toNat_shiftRight_ofNat (value : UInt32) (small : n < 32) :
    (value >>> UInt32.ofNat n).toNat = value.toNat / 2 ^ n := by
  rw [UInt32.toNat_shiftRight, UInt32.toNat_ofNat', Nat.mod_eq_of_lt (by omega : n < 2 ^ 32),
    Nat.mod_eq_of_lt small, Nat.shiftRight_eq_div_pow]

/-- The places below `n`. -/
theorem toNat_mask (value : UInt32) (small : n < 32) :
    (value &&& (((1 : UInt32) <<< UInt32.ofNat n) - 1)).toNat = value.toNat % 2 ^ n := by
  have power := toNat_one_shiftLeft small
  have one : (1 : UInt32).toNat ≤ ((1 : UInt32) <<< UInt32.ofNat n).toNat := by
    rw [power]
    exact Nat.one_le_two_pow
  rw [UInt32.toNat_and, UInt32.toNat_sub_of_le _ _ (UInt32.le_iff_toNat_le.mpr one), power, UInt32.toNat_one,
    Nat.and_two_pow_sub_one_eq_mod]

/-- What `shiftRoundEven` makes of a number it cannot carry out of a word. -/
def roundedEven (v n : Nat) : Nat :=
  v / 2 ^ n + if 2 ^ n < 2 * (v % 2 ^ n) ∨ 2 ^ n = 2 * (v % 2 ^ n) ∧ v / 2 ^ n % 2 = 1 then 1 else 0

theorem roundedEven_zero {v : Nat} (small : 2 * v < 2 ^ n) : roundedEven v n = 0 := by
  rw [roundedEven, Nat.div_eq_of_lt (by omega), Nat.mod_eq_of_lt (by omega), if_neg (by omega)]

/-- Also where the shift is wider than the word. -/
theorem shiftRoundEven_eq (small : value.toNat < 2 ^ 24) :
    (shiftRoundEven value n).toNat = roundedEven value.toNat n := by
  unfold shiftRoundEven
  split
  · rename_i none
    subst none
    simp [roundedEven, Nat.mod_one]
  · rename_i some_
    split
    · rename_i wide
      have power : 2 ^ 25 ≤ 2 ^ n := Nat.pow_le_pow_right (by decide) (by omega)
      rw [roundedEven_zero (by omega)]
      rfl
    · rename_i narrow
      have keep := toNat_shiftRight_ofNat value (n := n) (by omega)
      have rem := toNat_mask value (n := n) (by omega)
      have half := toNat_one_shiftLeft (n := n - 1) (by omega)
      have whole : 2 * 2 ^ (n - 1) = 2 ^ n := by
        rw [← Nat.pow_succ']
        congr 1
        omega
      have odd : (value >>> UInt32.ofNat n) &&& 1 = 1 ↔ value.toNat / 2 ^ n % 2 = 1 := by
        rw [← UInt32.toNat_inj, UInt32.toNat_and, keep, UInt32.toNat_one, Nat.and_one_is_mod]
      have exceeds : value &&& (((1 : UInt32) <<< UInt32.ofNat n) - 1) > (1 : UInt32) <<<
        UInt32.ofNat (n - 1) ↔
          2 ^ n < 2 * (value.toNat % 2 ^ n) := by
        rw [gt_iff_lt, UInt32.lt_iff_toNat_lt, rem, half]
        omega
      have tie : value &&& (((1 : UInt32) <<< UInt32.ofNat n) - 1) = (1 : UInt32) <<< UInt32.ofNat (n - 1) ↔
          2 ^ n = 2 * (value.toNat % 2 ^ n) := by
        rw [← UInt32.toNat_inj, rem, half]
        omega
      have least := Nat.div_le_self value.toNat (2 ^ n)
      simp only [exceeds, tie, odd, roundedEven]
      split
      · rw [UInt32.toNat_add, keep, UInt32.toNat_one, Nat.mod_eq_of_lt (by omega)]
      · rw [keep, Nat.add_zero]

end

namespace Fp8Format

/-- The widths and the bias, without what is special. -/
def format (fmt : Fp8Format) : Format := ⟨fmt.expBits, fmt.mantBits, fmt.bias.toNat⟩

@[simp] theorem format_expBits (fmt : Fp8Format) : fmt.format.expBits = fmt.expBits := rfl

@[simp] theorem format_mantBits (fmt : Fp8Format) : fmt.format.mantBits = fmt.mantBits := rfl

/-- The constants of a format belong together. -/
structure Proper (fmt : Fp8Format) : Prop where
  width : fmt.expBits + fmt.mantBits = 7
  mantissa : 1 ≤ fmt.mantBits
  bias : 0 ≤ fmt.bias ∧ fmt.bias ≤ 100
  topExp : 1 ≤ fmt.maxNormalExp ∧ fmt.maxNormalExp < (2 ^ fmt.expBits : Nat)
  topMant : fmt.maxNormalMant.toNat < 2 ^ fmt.mantBits
  top : fmt.maxFiniteBits.toNat = fmt.maxNormalExp.toNat * 2 ^ fmt.mantBits + fmt.maxNormalMant.toNat
  nan : fmt.maxFiniteBits.toNat < fmt.nanBits.toNat ∧ fmt.nanBits.toNat < 2 ^ 7
  special : fmt.maxFiniteBits.toNat + 1 = if fmt.hasInf then fmt.format.inf else 2 ^ 7 - 1
  infinite : fmt.hasInf = true → fmt.infBits.toNat = fmt.format.inf ∧ fmt.format.inf < fmt.nanBits.toNat

theorem e4m3fn_proper : Proper e4m3fn := by
  constructor <;> decide

theorem e5m2_proper : Proper e5m2 := by
  constructor <;> decide

end Fp8Format

section
variable {bits : UInt32}

theorem toNat_abs (bits : UInt32) : (bits &&& 0x7FFFFFFF).toNat = bits.toNat % 2 ^ 31 := by
  rw [UInt32.toNat_and]
  exact Nat.and_two_pow_sub_one_eq_mod _ 31

/-- The exponent of a single without its sign. -/
theorem toNat_exp (bits : UInt32) : ((bits &&& 0x7FFFFFFF) >>> 23).toNat = bits.toNat % 2 ^ 31 / 2 ^ 23 := by
  rw [UInt32.toNat_shiftRight, toNat_abs]
  simp only [UInt32.reduceToNat, Nat.reduceMod, Nat.shiftRight_eq_div_pow]

/-- The significand of a normal single. -/
theorem toNat_significand (bits : UInt32) :
    ((0x00800000 : UInt32) ||| (bits &&& 0x7FFFFFFF) &&& 0x007FFFFF).toNat =
    2 ^ 23 + bits.toNat % 2 ^ 31 % 2 ^ 23 := by
  have mantissa : ((bits &&& 0x7FFFFFFF) &&& 0x007FFFFF).toNat = bits.toNat % 2 ^ 31 % 2 ^ 23 := by
    rw [UInt32.toNat_and, toNat_abs]
    exact Nat.and_two_pow_sub_one_eq_mod _ 23
  have joined := or_eq_add (e := 1) (Nat.mod_lt (bits.toNat % 2 ^ 31) (Nat.two_pow_pos 23))
  rw [UInt32.toNat_or, mantissa]
  simpa using joined

theorem sign_eight (bits : UInt32) :
    ((bits >>> 24) &&& 0x80).toUInt8.toNat = bits.toNat / 2 ^ 31 * 2 ^ 7 := by
  have size := bits.toNat_lt
  have bit : bits.toNat / 2 ^ 24 &&& 128 = bits.toNat / 2 ^ 24 / 2 ^ 7 % 2 * 2 ^ 7 := by
    rw [← Nat.toNat_testBit]
    exact Nat.and_two_pow _ 7
  simp only [UInt32.toNat_toUInt8, UInt32.toNat_and, UInt32.toNat_shiftRight,
    UInt32.reduceToNat, Nat.reduceMod,
    Nat.shiftRight_eq_div_pow, bit]
  omega

theorem or_sign_eight {a b : UInt8} {s m : Nat} (sign : a.toNat = s * 2 ^ 7) (rest : b.toNat = m)
    (least : m < 2 ^ 7) : (a ||| b).toNat = s * 2 ^ 7 + m := by
  rw [UInt8.toNat_or, sign, rest, or_eq_add least]

end

section
variable {fmt : Fp8Format} {e m n k t P : Nat}

/-- Ties go to the even pattern, whichever exponent it has. -/
theorem rounds_even {g : Format} (normal : 1 ≤ t) (mantissa : 1 ≤ g.mantBits)
    (most : n / 2 ^ k < 2 ^ (g.mantBits + 1)) (least : t = 1 ∨ 2 ^ g.mantBits ≤ n / 2 ^ k) :
    Rounds g.magnitude (fun p => p % 2 = 0) (scaled n (t - g.bias - g.mantBits - k))
      ((t - 1) * 2 ^ g.mantBits + roundedEven n k) := by
  have rounds : Rounds g.magnitude (fun p => p % 2 = 0) _ _ :=
    Format.rounds_shift (n := n) (k := k) normal most least
  have parity : ¬ ((t - 1) * 2 ^ g.mantBits + n / 2 ^ k) % 2 = 0 ↔ n / 2 ^ k % 2 = 1 := by
    obtain ⟨b, places⟩ := Nat.exists_eq_add_of_le' mantissa
    have even : (t - 1) * 2 ^ g.mantBits = (t - 1) * 2 ^ b * 2 := by
      rw [places, Nat.pow_succ, Nat.mul_assoc]
    omega
  simp only [parity] at rounds
  rw [Nat.add_assoc] at rounds
  exact rounds

/-- A significand whose leading one stays is rounded to at most the next power of two. -/
theorem roundedEven_bounds (whole : n < 2 * (P * 2 ^ k)) (leading : P * 2 ^ k ≤ n) :
    P ≤ roundedEven n k ∧ roundedEven n k ≤ 2 * P ∧ P ≤ n / 2 ^ k ∧ n / 2 ^ k < 2 * P := by
  have low : P ≤ n / 2 ^ k := (Nat.le_div_iff_mul_le (Nat.two_pow_pos k)).mpr leading
  have high : n / 2 ^ k < 2 * P := (Nat.div_lt_iff_lt_mul (Nat.two_pow_pos k)).mpr (by rwa [Nat.mul_assoc])
  unfold roundedEven
  split
  · omega
  · omega

/-- Comparing exponent and mantissa is comparing patterns. -/
theorem lex_lt_iff {E M : Nat} (small : m < P) (small' : M < P) :
    E * P + M < e * P + m ↔ E < e ∨ e = E ∧ M < m := by
  rcases Nat.lt_trichotomy e E with less | rfl | more
  · have room := Nat.mul_le_mul_right P (Nat.succ_le_of_lt less)
    rw [Nat.succ_mul] at room
    omega
  · omega
  · have room := Nat.mul_le_mul_right P (Nat.succ_le_of_lt more)
    rw [Nat.succ_mul] at room
    omega

/-- The parts a rounded significand is split into, put together again. -/
theorem carried {rounded : Nat} (normal : 1 ≤ t) (low : P ≤ rounded) (high : rounded ≤ 2 * P) :
    (if rounded / (2 * P) ≠ 0 then (t + 1) * P + 0 else t * P + rounded % P) = (t - 1) * P + rounded := by
  obtain ⟨u, rfl⟩ := Nat.exists_eq_add_of_le' normal
  rw [Nat.add_sub_cancel, Nat.add_mul, Nat.add_mul, Nat.one_mul]
  rcases Nat.lt_or_ge rounded (2 * P) with less | same
  · rw [Nat.div_eq_of_lt less, if_neg (by simp), Nat.mod_eq_sub_mod low, Nat.mod_eq_of_lt (by omega)]
    omega
  · obtain rfl : rounded = 2 * P := by omega
    rcases Nat.eq_zero_or_pos P with rfl | positive
    · simp
    · rw [Nat.div_self (by omega), if_pos (by decide)]
      omega

end

section
variable {fmt : Fp8Format} {bits : UInt32}

/-- Exponent and mantissa put together, held to the largest finite number. -/
theorem saturated (proper : fmt.Proper) {sign : UInt8} {s e m : Nat} {e' : Int} {m' : UInt32}
    (signed : sign.toNat = s * 2 ^ 7) (exponent : e' = e) (mantissa : m'.toNat = m)
      (least : m < 2 ^ fmt.mantBits) :
    (if e' > fmt.maxNormalExp ∨ e' = fmt.maxNormalExp ∧ m' > fmt.maxNormalMant then sign ||| fmt.maxFiniteBits
      else sign ||| (UInt8.ofNat e'.toNat <<< UInt8.ofNat fmt.mantBits) ||| m'.toUInt8).toNat =
      s * 2 ^ 7 + min (e * 2 ^ fmt.mantBits + m) fmt.maxFiniteBits.toNat := by
  obtain ⟨above, small⟩ := proper.nan
  have width := proper.width
  have topExp := proper.topExp
  have past : (e' > fmt.maxNormalExp ∨ e' = fmt.maxNormalExp ∧ m' > fmt.maxNormalMant) ↔
      fmt.maxFiniteBits.toNat < e * 2 ^ fmt.mantBits + m := by
    rw [proper.top, lex_lt_iff least proper.topMant, gt_iff_lt, gt_iff_lt, UInt32.lt_iff_toNat_lt, mantissa]
    omega
  by_cases large : fmt.maxFiniteBits.toNat < e * 2 ^ fmt.mantBits + m
  · rw [if_pos (past.mpr large), or_sign_eight signed rfl (by omega)]
    omega
  · have positive : 0 < 2 ^ fmt.mantBits := Nat.two_pow_pos _
    have few : e < 2 ^ 7 := by
      have scaled := Nat.le_mul_of_pos_right e positive
      omega
    have placed : (UInt8.ofNat e'.toNat <<< UInt8.ofNat fmt.mantBits).toNat = e * 2 ^ fmt.mantBits := by
      have back : e'.toNat = e := by omega
      have bits : fmt.mantBits % 2 ^ 8 % 8 = fmt.mantBits := by omega
      rw [UInt8.toNat_shiftLeft, UInt8.toNat_ofNat', UInt8.toNat_ofNat', back, bits, Nat.shiftLeft_eq,
        Nat.mod_eq_of_lt (by omega : e < 2 ^ 8), Nat.mod_eq_of_lt (by omega)]
    have rest : m'.toUInt8.toNat = m := by
      rw [UInt32.toNat_toUInt8, mantissa]
      omega
    have high : s * 2 ^ 7 + e * 2 ^ fmt.mantBits = (s * 2 ^ fmt.expBits + e) * 2 ^ fmt.mantBits := by
      rw [← width, Nat.pow_add, Nat.add_mul, Nat.mul_assoc]
    rw [if_neg (past.not.mpr large), UInt8.toNat_or, or_sign_eight signed placed (by omega), rest, high,
      or_eq_add least, ← high]
    omega

/-- A number too large for a subnormal: rounded at the exponent it has, and held to the
largest finite one. -/
theorem encode_normal (proper : fmt.Proper) {t : Nat} (number : bits.toNat % 2 ^ 31 < 255 * 2 ^ 23)
    (exponent : (bits.toNat % 2 ^ 31 / 2 ^ 23 : Nat) - 127 + fmt.bias = t) (normal : 1 ≤ t) :
    (fp32BitsToFp8Bits bits fmt).toNat = bits.toNat / 2 ^ 31 * 2 ^ 7 +
      min ((t - 1) * 2 ^ fmt.mantBits +
        roundedEven (2 ^ 23 + bits.toNat % 2 ^ 31 % 2 ^ 23) (23 - fmt.mantBits)) fmt.maxFiniteBits.toNat := by
  have sign := sign_eight bits
  have abs_eq := toNat_abs bits
  have exp_eq := toNat_exp bits
  have sig_eq := toNat_significand bits
  obtain ⟨nanAbove, nanSmall⟩ := proper.nan
  unfold fp32BitsToFp8Bits
  extract_lets signBits abs exp mant newExp drop significand rounded shift
  have notNan : ¬ abs > 0x7F800000 := by
    rw [gt_iff_lt, UInt32.lt_iff_toNat_lt, abs_eq]
    exact Nat.not_lt.mpr (Nat.le_of_lt number)
  have notInf : abs ≠ 0x7F800000 := by
    intro same
    have same := congrArg UInt32.toNat same
    rw [abs_eq] at same
    exact absurd same (Nat.ne_of_lt number)
  have bias := proper.bias
  have newExp_eq : newExp = t := by
    simp only [newExp, exp, abs, exp_eq]
    exact exponent
  have notZero : abs ≠ 0 := by
    intro zero
    have zero := congrArg UInt32.toNat zero
    rw [abs_eq, UInt32.toNat_zero] at zero
    rw [zero] at exponent
    omega
  rw [if_neg notNan, if_neg notInf, if_neg notZero, if_pos (by omega)]
  have positive : 0 < 2 ^ fmt.mantBits := Nat.two_pow_pos _
  have width := proper.width
  have leading : 2 ^ fmt.mantBits * 2 ^ (23 - fmt.mantBits) = 2 ^ 23 := by
    rw [← Nat.pow_add]
    congr 1
    omega
  have least := Nat.mod_lt (bits.toNat % 2 ^ 31) (Nat.two_pow_pos 23)
  obtain ⟨low, high, -, -⟩ := roundedEven_bounds (P := 2 ^ fmt.mantBits) (k := 23 - fmt.mantBits)
    (n := 2 ^ 23 + bits.toNat % 2 ^ 31 % 2 ^ 23) (by rw [leading]; omega) (by rw [leading]; omega)
  have rounded_eq : rounded.toNat =
      roundedEven (2 ^ 23 + bits.toNat % 2 ^ 31 % 2 ^ 23) (23 - fmt.mantBits) := by
    have small : significand.toNat < 2 ^ 24 := by
      rw [sig_eq]
      omega
    rw [← sig_eq]
    exact shiftRoundEven_eq small
  generalize roundedEven (2 ^ 23 + bits.toNat % 2 ^ 31 % 2 ^ 23) (23 - fmt.mantBits) = r at *
  have carry : rounded >>> UInt32.ofNat (fmt.mantBits + 1) ≠ 0 ↔ r / (2 * 2 ^ fmt.mantBits) ≠ 0 := by
    rw [Ne, ← UInt32.toNat_inj, toNat_shiftRight_ofNat _ (by omega), rounded_eq, Nat.pow_succ',
      UInt32.toNat_zero]
  have parts := carried normal low high
  by_cases exceeds : r / (2 * 2 ^ fmt.mantBits) ≠ 0
  · rw [if_pos exceeds] at parts
    simp only [if_pos (carry.mpr exceeds)]
    rw [← parts]
    exact saturated proper sign (by omega) UInt32.toNat_zero positive
  · rw [if_neg exceeds] at parts
    simp only [if_neg (carry.not.mpr exceeds)]
    rw [← parts]
    apply saturated proper sign newExp_eq _ (Nat.mod_lt _ positive)
    rw [toNat_mask _ (by omega), rounded_eq]

/-- Below the normal numbers: rounded in steps of the least one. -/
theorem encode_subnormal (proper : fmt.Proper) {j : Nat} (number : bits.toNat % 2 ^ 31 < 255 * 2 ^ 23)
    (some_ : bits.toNat % 2 ^ 31 ≠ 0) (exponent : (bits.toNat % 2 ^ 31 / 2 ^ 23 : Nat) + fmt.bias + j = 127) :
    (fp32BitsToFp8Bits bits fmt).toNat = bits.toNat / 2 ^ 31 * 2 ^ 7 +
      roundedEven (2 ^ 23 + bits.toNat % 2 ^ 31 % 2 ^ 23) (24 - fmt.mantBits + j) ∧
    roundedEven (2 ^ 23 + bits.toNat % 2 ^ 31 % 2 ^ 23) (24 - fmt.mantBits + j) ≤
      fmt.maxFiniteBits.toNat := by
  have sign := sign_eight bits
  have abs_eq := toNat_abs bits
  have exp_eq := toNat_exp bits
  have sig_eq := toNat_significand bits
  have width := proper.width
  have least := Nat.mod_lt (bits.toNat % 2 ^ 31) (Nat.two_pow_pos 23)
  have bound : roundedEven (2 ^ 23 + bits.toNat % 2 ^ 31 % 2 ^ 23) (24 - fmt.mantBits + j) ≤
      fmt.maxFiniteBits.toNat := by
    have room : 2 ^ 24 ≤ 2 ^ fmt.mantBits * 2 ^ (24 - fmt.mantBits + j) := by
      rw [← Nat.pow_add]
      exact Nat.pow_le_pow_right (by decide) (by omega)
    have few : (2 ^ 23 + bits.toNat % 2 ^ 31 % 2 ^ 23) / 2 ^ (24 - fmt.mantBits + j) < 2 ^ fmt.mantBits :=
      (Nat.div_lt_iff_lt_mul (Nat.two_pow_pos _)).mpr (by omega)
    have one : 2 ^ fmt.mantBits ≤ fmt.maxNormalExp.toNat * 2 ^ fmt.mantBits :=
      Nat.le_mul_of_pos_left _ (by have := proper.topExp; omega)
    rw [proper.top, roundedEven]
    split
    · omega
    · omega
  refine ⟨?_, bound⟩
  obtain ⟨nanAbove, nanSmall⟩ := proper.nan
  unfold fp32BitsToFp8Bits
  extract_lets signBits abs exp mant newExp drop significand rounded shift
  have notNan : ¬ abs > 0x7F800000 := by
    rw [gt_iff_lt, UInt32.lt_iff_toNat_lt, abs_eq]
    exact Nat.not_lt.mpr (Nat.le_of_lt number)
  have notInf : abs ≠ 0x7F800000 := by
    intro same
    have same := congrArg UInt32.toNat same
    rw [abs_eq] at same
    exact absurd same (Nat.ne_of_lt number)
  have notZero : abs ≠ 0 := by
    intro zero
    have zero := congrArg UInt32.toNat zero
    rw [abs_eq, UInt32.toNat_zero] at zero
    exact some_ zero
  have newExp_eq : newExp = -(j : Int) := by
    simp only [newExp, exp, abs, exp_eq]
    omega
  have shift_eq : shift = 24 - fmt.mantBits + j := by
    simp only [shift, drop, newExp_eq]
    omega
  have rounded_eq : (shiftRoundEven significand shift).toUInt8.toNat =
      roundedEven (2 ^ 23 + bits.toNat % 2 ^ 31 % 2 ^ 23) (24 - fmt.mantBits + j) := by
    have small : significand.toNat < 2 ^ 24 := by
      rw [sig_eq]
      omega
    rw [UInt32.toNat_toUInt8, shiftRoundEven_eq small, sig_eq, shift_eq]
    omega
  rw [if_neg notNan, if_neg notInf, if_neg notZero, if_neg (by omega)]
  exact or_sign_eight sign rounded_eq (by omega)

/-- What is below the normal singles is below half the least step of any such format. -/
theorem rounds_tiny (proper : fmt.Proper) {a : Nat} (tiny : a < 2 ^ 23) :
    Rounds fmt.format.magnitude (fun p => p % 2 = 0) (single.magnitude a) 0 := by
  have width := proper.width
  have bias := proper.bias
  have below : single.magnitude a < single.magnitude (2 ^ 23) := Format.magnitude_strictMono tiny
  have limit : 2 * single.magnitude (2 ^ 23) = scaled 1 (-125) := by
    have power := magnitude_single (e := 1) (m := 0) (by decide) (by decide) rfl
    have place : ((1 : Nat) : Int) - 150 = -125 - (24 : Nat) := by decide
    have double := scaled_two (2 ^ 23) (-125 - (24 : Nat))
    rw [Nat.one_mul, Nat.add_zero, place] at power
    rw [power, double, ← scaled_shift 1 24 (-125)]
    rfl
  have first : scaled 1 (-125) ≤ fmt.format.magnitude 1 := by
    have step := Format.magnitude_eq (f := fmt.format) (e := 1) (q := 1) (by decide)
      Nat.one_le_two_pow (.inl rfl)
    rw [Nat.sub_self, Nat.zero_mul, Nat.zero_add] at step
    rw [step, scaled, scaled, Nat.cast_one, one_mul, one_mul]
    apply zpow_le_zpow_right₀ (by norm_num)
    simp only [Fp8Format.format]
    omega
  have under : 2 * single.magnitude a < fmt.format.magnitude 0 + fmt.format.magnitude (0 + 1) := by
    rw [Format.magnitude_zero, zero_add, Nat.zero_add]
    linarith
  apply rounds_down Format.magnitude_strictMono
  · rw [Format.magnitude_zero]
    exact Format.magnitude_nonneg
  · exact le_of_lt under
  · intro same
    linarith

/-- Every finite single is rounded to even, and held to the largest finite number. -/
theorem encode_finite (proper : fmt.Proper) (number : bits.toNat % 2 ^ 31 < 255 * 2 ^ 23) :
    ∃ c, Rounds fmt.format.magnitude (fun p => p % 2 = 0) (single.magnitude (bits.toNat % 2 ^ 31)) c ∧
      (fp32BitsToFp8Bits bits fmt).toNat = bits.toNat / 2 ^ 31 * 2 ^ 7 + min c fmt.maxFiniteBits.toNat := by
  have width := proper.width
  have bias := proper.bias
  have least := Nat.mod_lt (bits.toNat % 2 ^ 31) (Nat.two_pow_pos 23)
  have parts := Nat.div_add_mod' (bits.toNat % 2 ^ 31) (2 ^ 23)
  by_cases tiny : bits.toNat % 2 ^ 31 < 2 ^ 23
  · refine ⟨0, rounds_tiny proper tiny, ?_⟩
    rw [Nat.zero_min, Nat.add_zero]
    by_cases zero : bits.toNat % 2 ^ 31 = 0
    · have none : bits &&& 0x7FFFFFFF = 0 := UInt32.toNat_inj.mp ((toNat_abs bits).trans zero)
      simp only [fp32BitsToFp8Bits, none]
      exact sign_eight bits
    · obtain ⟨j, places⟩ := Int.eq_ofNat_of_zero_le (show 0 ≤ 127 - fmt.bias by omega)
      have power : 2 ^ 25 ≤ 2 ^ (24 - fmt.mantBits + j) := Nat.pow_le_pow_right (by decide) (by omega)
      obtain ⟨made, -⟩ := encode_subnormal proper (j := j) number zero (by omega)
      rw [made, roundedEven_zero (by omega), Nat.add_zero]
  · have significand := magnitude_single (e := bits.toNat % 2 ^ 31 / 2 ^ 23) (by omega) least parts.symm
    rw [significand]
    rcases lt_or_ge (0 : Int) ((bits.toNat % 2 ^ 31 / 2 ^ 23 : Nat) - 127 + fmt.bias) with large | small
    · obtain ⟨t, exponent⟩ := Int.eq_ofNat_of_zero_le (le_of_lt large)
      have leading : 2 ^ fmt.mantBits * 2 ^ (23 - fmt.mantBits) = 2 ^ 23 := by
        rw [← Nat.pow_add]
        congr 1
        omega
      obtain ⟨-, -, low, high⟩ := roundedEven_bounds (P := 2 ^ fmt.mantBits) (k := 23 - fmt.mantBits)
        (n := 2 ^ 23 + bits.toNat % 2 ^ 31 % 2 ^ 23) (by rw [leading]; omega) (by rw [leading]; omega)
      rw [← Nat.pow_succ'] at high
      have rounds := rounds_even (g := fmt.format) (t := t) (n := 2 ^ 23 + bits.toNat % 2 ^ 31 % 2 ^ 23)
        (k := 23 - fmt.mantBits) (by omega) proper.mantissa high (.inr low)
      have place : (t : Int) - fmt.format.bias - fmt.format.mantBits - (23 - fmt.mantBits : Nat) =
          (bits.toNat % 2 ^ 31 / 2 ^ 23 : Nat) - 150 := by
        simp only [Fp8Format.format]
        omega
      rw [place] at rounds
      exact ⟨_, rounds, encode_normal proper number exponent (by omega)⟩
    · obtain ⟨j, places⟩ := Int.eq_ofNat_of_zero_le
        (show 0 ≤ 127 - fmt.bias - (bits.toNat % 2 ^ 31 / 2 ^ 23 : Nat) by omega)
      obtain ⟨made, within⟩ := encode_subnormal proper (j := j) number (by omega) (by omega)
      have few : (2 ^ 23 + bits.toNat % 2 ^ 31 % 2 ^ 23) / 2 ^ (24 - fmt.mantBits + j) <
          2 ^ (fmt.format.mantBits + 1) := by
        apply (Nat.div_lt_iff_lt_mul (Nat.two_pow_pos _)).mpr
        have room : 2 ^ 24 ≤ 2 ^ (fmt.format.mantBits + 1) * 2 ^ (24 - fmt.mantBits + j) := by
          rw [← Nat.pow_add]
          exact Nat.pow_le_pow_right (by decide) (by simp only [Fp8Format.format]; omega)
        omega
      have rounds := rounds_even (g := fmt.format) (t := 1) (n := 2 ^ 23 + bits.toNat % 2 ^ 31 % 2 ^ 23)
        (k := 24 - fmt.mantBits + j) (by omega) proper.mantissa few (.inl rfl)
      have place : ((1 : Nat) : Int) - fmt.format.bias - fmt.format.mantBits - (24 - fmt.mantBits + j : Nat) =
          (bits.toNat % 2 ^ 31 / 2 ^ 23 : Nat) - 150 := by
        simp only [Fp8Format.format]
        omega
      rw [place, Nat.sub_self, Nat.zero_mul, Nat.zero_add] at rounds
      exact ⟨_, rounds, by rw [made, Nat.min_eq_left within]⟩

/-- What is no number. -/
theorem encode_special (proper : fmt.Proper) (special : 255 * 2 ^ 23 ≤ bits.toNat % 2 ^ 31) :
    (fp32BitsToFp8Bits bits fmt).toNat = bits.toNat / 2 ^ 31 * 2 ^ 7 +
      if 255 * 2 ^ 23 < bits.toNat % 2 ^ 31 ∨ fmt.hasInf = false then fmt.nanBits.toNat else
        fmt.format.inf := by
  have sign := sign_eight bits
  obtain ⟨above, small⟩ := proper.nan
  have nan : bits &&& 0x7FFFFFFF > 0x7F800000 ↔ 255 * 2 ^ 23 < bits.toNat % 2 ^ 31 := by
    rw [gt_iff_lt, UInt32.lt_iff_toNat_lt, toNat_abs]
    rfl
  have inf : bits &&& 0x7FFFFFFF = 0x7F800000 ↔ bits.toNat % 2 ^ 31 = 255 * 2 ^ 23 := by
    rw [← UInt32.toNat_inj, toNat_abs]
    rfl
  simp only [fp32BitsToFp8Bits, nan, inf]
  by_cases beyond : 255 * 2 ^ 23 < bits.toNat % 2 ^ 31
  · rw [if_pos beyond, if_pos (.inl beyond)]
    exact or_sign_eight sign rfl small
  · rw [if_neg beyond, if_pos (by omega)]
    cases has : fmt.hasInf with
    | true =>
      obtain ⟨same, less⟩ := proper.infinite has
      simp only [beyond, Bool.true_eq_false, or_self, if_false, if_true]
      exact or_sign_eight sign same (by omega)
    | false =>
      simp only [or_true, if_true, Bool.false_eq_true, if_false]
      exact or_sign_eight sign rfl small

end

namespace Fp8Format
variable {fmt : Fp8Format} {b : UInt8}

/-- The number a pattern stands for, before the scale. -/
def decode (fmt : Fp8Format) (b : UInt8) : Datum :=
  let x := fmt.format.fields b.toNat
  if x.exponent = 2 ^ fmt.expBits - 1 ∧ fmt.hasInf then
    if x.mantissa = 0 then .infinite x.negative else .nan
  else if x.exponent = 2 ^ fmt.expBits - 1 ∧ ¬ fmt.hasInf ∧ x.mantissa = 2 ^ fmt.mantBits - 1 then .nan
  else .finite x.negative (scaled (fmt.format.significand x) (fmt.format.place x))

def largest (fmt : Fp8Format) : Rat := fmt.format.magnitude fmt.maxFiniteBits.toNat

theorem decode_eq (proper : fmt.Proper) : fmt.decode b =
    if fmt.format.code b.toNat ≤ fmt.maxFiniteBits.toNat then
      .finite (fmt.format.negative b.toNat) (fmt.format.magnitude (fmt.format.code b.toNat))
    else if fmt.hasInf ∧ fmt.format.code b.toNat = fmt.format.inf then .infinite (fmt.format.negative b.toNat)
    else .nan := by
  have special := proper.special
  cases has : fmt.hasInf with
  | true =>
    rw [has, if_pos rfl] at special
    have same : fmt.decode b = fmt.format.decode b.toNat := by
      rw [decode, Format.decode, Format.datum]
      simp only [has, and_true, not_true_eq_false, false_and, and_false, if_false]
      rfl
    rw [same, Format.decode_eq]
    have below : fmt.format.code b.toNat < fmt.format.inf ↔
        fmt.format.code b.toNat ≤ fmt.maxFiniteBits.toNat := by omega
    simp only [below, true_and]
  | false =>
    rw [has, if_neg (by simp)] at special
    have size : 2 ^ fmt.expBits * 2 ^ fmt.mantBits = 2 ^ 7 := by
      rw [← Nat.pow_add, proper.width]
    have small : fmt.format.code b.toNat < 2 ^ fmt.expBits * 2 ^ fmt.mantBits := Format.code_lt
    have parts := Nat.div_add_mod' (fmt.format.code b.toNat) (2 ^ fmt.mantBits)
    have least := Nat.mod_lt (fmt.format.code b.toNat) (Nat.two_pow_pos fmt.mantBits)
    have top : fmt.format.code b.toNat / 2 ^ fmt.mantBits = 2 ^ fmt.expBits - 1 ∧
        fmt.format.code b.toNat % 2 ^ fmt.mantBits = 2 ^ fmt.mantBits - 1 ↔
          ¬ fmt.format.code b.toNat ≤ fmt.maxFiniteBits.toNat := by
      obtain ⟨e, exponents⟩ := Nat.exists_eq_add_of_le' (Nat.one_le_two_pow (n := fmt.expBits))
      rw [exponents] at size small
      rw [exponents, Nat.add_sub_cancel]
      rw [Nat.succ_mul] at size small
      constructor
      · rintro ⟨ones, full⟩
        rw [ones, full] at parts
        omega
      · intro above
        have ones : fmt.format.code b.toNat / 2 ^ fmt.mantBits = e := by
          rcases Nat.lt_trichotomy (fmt.format.code b.toNat / 2 ^ fmt.mantBits) e with less | same | more
          · have room := Nat.mul_le_mul_right (2 ^ fmt.mantBits) (Nat.succ_le_of_lt less)
            rw [Nat.succ_mul] at room
            omega
          · exact same
          · have room := Nat.mul_le_mul_right (2 ^ fmt.mantBits) (Nat.succ_le_of_lt more)
            rw [Nat.succ_mul] at room
            omega
        rw [ones] at parts
        exact ⟨ones, by omega⟩
    simp only [decode, has, Format.fields_eq, format_mantBits, Bool.false_eq_true, and_false,
      if_false, not_false_eq_true, true_and,
      false_and]
    by_cases within : fmt.format.code b.toNat ≤ fmt.maxFiniteBits.toNat
    · rw [if_pos within, if_neg (fun both => top.mp both within)]
      rfl
    · rw [if_neg within, if_pos (top.mpr within)]

theorem decode_finite (proper : fmt.Proper) {s : Bool} {x : Rat} : fmt.decode b = .finite s x ↔
    fmt.format.code b.toNat ≤ fmt.maxFiniteBits.toNat ∧ fmt.format.negative b.toNat = s ∧
      fmt.format.magnitude (fmt.format.code b.toNat) = x := by
  rw [decode_eq proper]
  by_cases within : fmt.format.code b.toNat ≤ fmt.maxFiniteBits.toNat
  · simp [within]
  · rw [if_neg within]
    split
    · simp [within]
    · simp [within]

end Fp8Format

/-- An encoding to float8 that rounds correctly, and saturates. -/
structure Encodes (fmt : Fp8Format) : Prop where
  sign : ∀ bits, fmt.format.negative (fp32BitsToFp8Bits bits fmt).toNat = single.negative bits.toNat
  nan : ∀ bits, single.decode bits.toNat = .nan → fmt.decode (fp32BitsToFp8Bits bits fmt) = .nan
  infinite : ∀ bits s, single.decode bits.toNat = .infinite s →
    fmt.decode (fp32BitsToFp8Bits bits fmt) = if fmt.hasInf then .infinite s else .nan
  range : ∀ b s x, fmt.decode b = .finite s x → x ≤ fmt.largest
  nearest : ∀ bits s x, single.decode bits.toNat = .finite s x → x ≤ fmt.largest →
    ∃ y, fmt.decode (fp32BitsToFp8Bits bits fmt) = .finite s y ∧
      ∀ other t z, fmt.decode other = .finite t z →
        |signed s x - signed s y| ≤ |signed s x - signed t z| ∧
          (|signed s x - signed s y| = |signed s x - signed t z| → signed t z ≠ signed s y →
            (fp32BitsToFp8Bits bits fmt).toNat % 2 = 0)
  saturates : ∀ bits s x, single.decode bits.toNat = .finite s x → fmt.largest < x →
    fmt.decode (fp32BitsToFp8Bits bits fmt) = .finite s fmt.largest
  monotone : ∀ one two s x t y, single.decode one.toNat = .finite s x →
    single.decode two.toNat = .finite t y →
    signed s x ≤ signed t y →
    (fmt.decode (fp32BitsToFp8Bits one fmt)).Le (fmt.decode (fp32BitsToFp8Bits two fmt))

section
variable {fmt : Fp8Format} {bits one two : UInt32}

/-- The parts of a byte put together. -/
theorem eight_parts (proper : fmt.Proper) {s c : Nat} (least : c < 2 ^ 7) :
    fmt.format.negative (s * 2 ^ 7 + c) = decide (s % 2 = 1) ∧ fmt.format.code (s * 2 ^ 7 + c) = c := by
  have high : (s * 2 ^ 7 + c) / 2 ^ 7 = s := by omega
  have width : fmt.format.expBits + fmt.format.mantBits = 7 := proper.width
  constructor
  · change decide ((s * 2 ^ 7 + c) / 2 ^ (fmt.format.expBits + fmt.format.mantBits) % 2 = 1) = _
    rw [width, high]
  · rw [Format.code, width]
    omega

theorem encode_parts (proper : fmt.Proper) {c : Nat} (least : c < 2 ^ 7)
    (made : (fp32BitsToFp8Bits bits fmt).toNat = bits.toNat / 2 ^ 31 * 2 ^ 7 + c) :
    fmt.format.negative (fp32BitsToFp8Bits bits fmt).toNat = single.negative bits.toNat ∧
      fmt.format.code (fp32BitsToFp8Bits bits fmt).toNat = c := by
  rw [made]
  exact eight_parts proper least

/-- A finite single, as the pattern it is encoded to. -/
theorem encode_code (proper : fmt.Proper) (number : single.code bits.toNat < single.inf) :
    ∃ c, Rounds fmt.format.magnitude (fun p => p % 2 = 0) (single.magnitude (single.code bits.toNat)) c ∧
      fmt.format.negative (fp32BitsToFp8Bits bits fmt).toNat = single.negative bits.toNat ∧
      fmt.format.code (fp32BitsToFp8Bits bits fmt).toNat = min c fmt.maxFiniteBits.toNat := by
  have limit := proper.nan
  obtain ⟨c, rounds, made⟩ := encode_finite proper number
  exact ⟨c, rounds, encode_parts proper (by omega) made⟩

theorem special_code (proper : fmt.Proper) (special : single.inf ≤ single.code bits.toNat) :
    fmt.format.negative (fp32BitsToFp8Bits bits fmt).toNat = single.negative bits.toNat ∧
      fmt.format.code (fp32BitsToFp8Bits bits fmt).toNat =
        if single.inf < single.code bits.toNat ∨ fmt.hasInf = false then fmt.nanBits.toNat else
          fmt.format.inf := by
  have limit := proper.nan
  apply encode_parts proper _ (encode_special proper special)
  split
  · exact limit.2
  · rename_i neither
    have has : fmt.hasInf = true := by
      cases has : fmt.hasInf with
      | true => rfl
      | false => exact absurd (.inr has) neither
    have less := (proper.infinite has).2
    omega

theorem decode_nanBits (proper : fmt.Proper) {b : UInt8}
    (code : fmt.format.code b.toNat = fmt.nanBits.toNat) :
    fmt.decode b = .nan := by
  have limit := proper.nan
  rw [Fp8Format.decode_eq proper, code, if_neg (by omega), if_neg]
  rintro ⟨has, same⟩
  have less := (proper.infinite has).2
  omega

theorem monotone_codes (proper : fmt.Proper) {s t : Bool} (number : single.code one.toNat < single.inf)
    (number' : single.code two.toNat < single.inf)
    (order : Format.CodeLe s t (single.code one.toNat) (single.code two.toNat)) :
    Format.CodeLe s t (fmt.format.code (fp32BitsToFp8Bits one fmt).toNat)
      (fmt.format.code (fp32BitsToFp8Bits two fmt).toNat) := by
  obtain ⟨c, rounds, -, code⟩ := encode_code proper number
  obtain ⟨d, rounds', -, code'⟩ := encode_code proper number'
  rw [code, code']
  have mono {x y : Rat} {p q : Nat} (first : Rounds fmt.format.magnitude (fun p => p % 2 = 0) x p)
      (second : Rounds fmt.format.magnitude (fun p => p % 2 = 0) y q) (le : x ≤ y) :
      min p fmt.maxFiniteBits.toNat ≤ min q fmt.maxFiniteBits.toNat := by
    have le := first.mono Format.magnitude_strictMono second le
    omega
  have zero : Rounds fmt.format.magnitude (fun p => p % 2 = 0) 0 0 := by
    have self : Rounds fmt.format.magnitude (fun p => p % 2 = 0) (fmt.format.magnitude 0) 0 :=
      rounds_self Format.magnitude_strictMono
    rwa [Format.magnitude_zero] at self
  cases s with
  | false =>
    cases t with
    | false => exact mono rounds rounds' (Format.magnitude_strictMono.monotone order)
    | true =>
      obtain ⟨none, none'⟩ := order
      rw [none, Format.magnitude_zero] at rounds
      rw [none', Format.magnitude_zero] at rounds'
      rw [rounds.unique Format.magnitude_strictMono zero, rounds'.unique Format.magnitude_strictMono zero]
      exact ⟨Nat.zero_min _, Nat.zero_min _⟩
  | true =>
    cases t with
    | false => trivial
    | true => exact mono rounds' rounds (Format.magnitude_strictMono.monotone order)

theorem encodes (proper : fmt.Proper) : Encodes fmt := by
  have limit := proper.nan
  constructor
  · intro bits
    rcases Nat.lt_or_ge (single.code bits.toNat) single.inf with number | special
    · obtain ⟨c, -, sign, -⟩ := encode_code proper number
      exact sign
    · exact (special_code proper special).1
  · intro bits nan
    have beyond := Format.decode_nan.mp nan
    obtain ⟨-, code⟩ := special_code proper (Nat.le_of_lt beyond)
    rw [if_pos (.inl beyond)] at code
    exact decode_nanBits proper code
  · intro bits s infinite
    obtain ⟨top, rfl⟩ := Format.decode_infinite.mp infinite
    obtain ⟨sign, code⟩ := special_code proper (Nat.le_of_eq top.symm)
    cases has : fmt.hasInf with
    | true =>
      rw [has, if_neg (by simp [top])] at code
      have special := proper.special
      rw [has, if_pos rfl] at special
      rw [Fp8Format.decode_eq proper, code, if_neg (by omega), if_pos ⟨has, rfl⟩, sign]
      rfl
    | false =>
      rw [if_pos (.inr has)] at code
      rw [decode_nanBits proper code]
      rfl
  · intro b s x finite
    obtain ⟨within, -, rfl⟩ := (Fp8Format.decode_finite proper).mp finite
    exact Format.magnitude_strictMono.monotone within
  · intro bits s x finite within
    obtain ⟨number, rfl, rfl⟩ := Format.decode_finite.mp finite
    obtain ⟨c, rounds, sign, code⟩ := encode_code proper number
    have least : c ≤ fmt.maxFiniteBits.toNat :=
      rounds.mono Format.magnitude_strictMono (rounds_self Format.magnitude_strictMono) within
    rw [Nat.min_eq_left least] at code
    refine ⟨fmt.format.magnitude c, (Fp8Format.decode_finite proper).mpr ⟨by omega, sign, by rw [code]⟩, ?_⟩
    intro other t z there
    obtain ⟨-, rfl, rfl⟩ := (Fp8Format.decode_finite proper).mp there
    obtain ⟨near, tied⟩ := Format.nearest_signed (s := single.negative bits.toNat)
      (t := fmt.format.negative other.toNat) (d := fmt.format.code other.toNat) Format.magnitude_nonneg rounds
    refine ⟨near, fun same differ => ?_⟩
    have low : (fp32BitsToFp8Bits bits fmt).toNat % 2 ^ 7 = c := by
      rw [Format.code, Fp8Format.format_expBits, Fp8Format.format_mantBits, proper.width] at code
      exact code
    have even : c % 2 = 0 := by
      rcases tied same differ with ⟨-, stay⟩ | ⟨next, leave⟩
      · exact stay
      · omega
    omega
  · intro bits s x finite beyond
    obtain ⟨number, rfl, rfl⟩ := Format.decode_finite.mp finite
    obtain ⟨c, rounds, sign, code⟩ := encode_code proper number
    have more : fmt.maxFiniteBits.toNat ≤ c :=
      (rounds_self Format.magnitude_strictMono).mono Format.magnitude_strictMono rounds (le_of_lt beyond)
    rw [Nat.min_eq_right more] at code
    exact (Fp8Format.decode_finite proper).mpr ⟨Nat.le_of_eq code, sign, by rw [code]; rfl⟩
  · intro one two s x t y finite finite' order
    obtain ⟨number, rfl, rfl⟩ := Format.decode_finite.mp finite
    obtain ⟨number', rfl, rfl⟩ := Format.decode_finite.mp finite'
    have codes := monotone_codes proper number number' (Format.signed_magnitude_le.mp order)
    obtain ⟨c, -, sign, code⟩ := encode_code proper number
    obtain ⟨d, -, sign', code'⟩ := encode_code proper number'
    rw [Fp8Format.decode_eq proper, Fp8Format.decode_eq proper, if_pos (by omega),
      if_pos (by omega), sign, sign']
    exact Format.signed_magnitude_le.mpr codes

end

/-- Both float8 encodings round every finite single to a nearest number, ties to even, and
saturate; infinity stays one where the format has one. -/
theorem fp8_correctly_rounds : Encodes e4m3fn ∧ Encodes e5m2 ∧
    (e4m3fn.hasInf = false ∧ e4m3fn.largest = 448) ∧ e5m2.hasInf = true ∧ e5m2.largest = 57344 := by
  refine ⟨encodes Fp8Format.e4m3fn_proper, encodes Fp8Format.e5m2_proper, ⟨rfl, ?_⟩, rfl, ?_⟩
  · decide +kernel
  · decide +kernel

end Cast
end Moonclip
