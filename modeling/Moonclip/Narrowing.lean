import Moonclip.HalfPrecision
import Moonclip.Library.Buffers
import Moonclip.Library.Rounding

/-! The narrowing casts as roundings: every single goes to a nearest number of the format
it is narrowed to, and a buffer is narrowed element by element. -/
namespace Moonclip
open Library.Blocks Library.Codec Library.Floating Library.Outcome Library.Rounding

namespace Cast

theorem negative_single (bits : UInt32) :
    single.negative bits.toNat = decide (bits.toNat / 2 ^ 31 % 2 = 1) := rfl

/-- A single without its sign: where its significand ends. -/
theorem magnitude_single {a e m : Nat} (normal : 1 ≤ e) (least : m < 2 ^ 23) (parts : a = e * 2 ^ 23 + m) :
    single.magnitude a = scaled (2 ^ 23 + m) (e - 150) := by
  have step := Format.magnitude_eq (f := single) normal (q := 2 ^ 23 + m) (by simp only [single]; omega)
    (.inr (Nat.le_add_right _ _))
  have code : (e - 1) * 2 ^ single.mantBits + (2 ^ 23 + m) = a := by
    simp only [single]
    omega
  rw [code] at step
  rw [step]
  congr 1
  simp only [single]
  omega

/-- bfloat16 without its sign, for what is no NaN. -/
def narrowedBrain (a : Nat) : Nat := (a + (a / 2 ^ 16 % 2 + 32767)) / 2 ^ 16

theorem narrowedBrain_rounds {a : Nat} (finite : a < 255 * 2 ^ 23) :
    Rounds brain.magnitude (fun p => p % 2 = 0) (single.magnitude a) (narrowedBrain a) := by
  obtain ⟨e, q, normal, most, least, rfl⟩ := single.exists_step a
  have place : (e : Int) - brain.bias - brain.mantBits - (16 : Nat) = e - single.bias - single.mantBits := by
    simp only [brain, single]
    omega
  rw [Format.magnitude_eq normal (Nat.le_of_lt most) least, ← place]
  simp only [single] at most least finite ⊢
  have rounds : Rounds brain.magnitude (fun p => p % 2 = 0) _ _ :=
    Format.rounds_shift (n := q) (k := 16) normal (by simp only [brain]; omega) (by simp only [brain]; omega)
  have code : narrowedBrain ((e - 1) * 2 ^ 23 + q) = (e - 1) * 2 ^ 7 + q / 2 ^ 16 +
      if 2 ^ 16 < 2 * (q % 2 ^ 16) ∨
        2 ^ 16 = 2 * (q % 2 ^ 16) ∧ ¬ ((e - 1) * 2 ^ 7 + q / 2 ^ 16) % 2 = 0 then 1 else 0 := by
    unfold narrowedBrain
    split
    · omega
    · omega
  rw [code]
  exact rounds

theorem narrowedBrain_le {a : Nat} (number : a ≤ 255 * 2 ^ 23) : narrowedBrain a ≤ 255 * 2 ^ 7 := by
  unfold narrowedBrain
  omega

theorem brain_sum {s a bias : Nat} (sign : s < 2) (number : a ≤ 255 * 2 ^ 23) (one : bias < 2) :
    (s * 2 ^ 31 + a + (bias + 32767) % 2 ^ 32) % 2 ^ 32 / 2 ^ 16 % 2 ^ 16 =
      s * 2 ^ 15 + (a + (bias + 32767)) / 2 ^ 16 := by
  have within : s * 2 ^ 31 + a + (bias + 32767) < 2 ^ 32 := by omega
  have small : bias + 32767 < 2 ^ 32 := (Nat.add_lt_add_right one 32767).trans (by decide)
  rw [Nat.mod_eq_of_lt small, Nat.mod_eq_of_lt within]
  omega

theorem rounded_brain {s a : Nat} (sign : s < 2) (number : a ≤ 255 * 2 ^ 23) :
    (s * 2 ^ 31 + a + ((s * 2 ^ 31 + a) / 2 ^ 16 % 2 + 32767) % 2 ^ 32) % 2 ^ 32 / 2 ^ 16 % 2 ^ 16 =
      s * 2 ^ 15 + narrowedBrain a := by
  have parity : (s * 2 ^ 31 + a) / 2 ^ 16 % 2 = a / 2 ^ 16 % 2 := by omega
  rw [parity]
  exact brain_sum sign number (Nat.mod_lt _ (by decide))
/-- Narrowing to bfloat16, where the pattern is no NaN. -/
theorem fp32BitsToBf16Bits_eq {bits : UInt32} (number : bits.toNat % 2 ^ 31 ≤ 255 * 2 ^ 23) :
    (fp32BitsToBf16Bits bits).toNat =
      bits.toNat / 2 ^ 31 * 2 ^ 15 + narrowedBrain (bits.toNat % 2 ^ 31) := by
  have size := bits.toNat_lt
  have low : (bits &&& 0x7FFFFFFF).toNat = bits.toNat % 2 ^ 31 := by
    rw [UInt32.toNat_and]
    exact Nat.and_two_pow_sub_one_eq_mod _ 31
  have real : ¬ bits &&& 0x7FFFFFFF > 0x7F800000 := by
    rw [gt_iff_lt, UInt32.lt_iff_toNat_lt, low]
    exact Nat.not_lt.mpr number
  have odd : ((bits >>> 16) &&& 1).toNat = bits.toNat / 2 ^ 16 % 2 := by
    simp [UInt32.toNat_shiftRight, Nat.shiftRight_eq_div_pow]
  have sum := rounded_brain (s := bits.toNat / 2 ^ 31) (by omega) number
  rw [Nat.div_add_mod'] at sum
  rw [fp32BitsToBf16Bits, if_neg real, ← sum]
  simp only [UInt32.toNat_toUInt16, UInt32.toNat_shiftRight, UInt32.toNat_add, odd, UInt32.reduceToNat,
    Nat.reduceMod, Nat.shiftRight_eq_div_pow]

/-- A NaN stays one. -/
theorem fp32BitsToBf16Bits_nan {bits : UInt32} (nan : 255 * 2 ^ 23 < bits.toNat % 2 ^ 31) :
    ∃ r, 64 ≤ r ∧ r < 2 ^ 7 ∧
      (fp32BitsToBf16Bits bits).toNat = (bits.toNat / 2 ^ 31 * 2 ^ 8 + 255) * 2 ^ 7 + r := by
  have size := bits.toNat_lt
  have low : (bits &&& 0x7FFFFFFF).toNat = bits.toNat % 2 ^ 31 := by
    rw [UInt32.toNat_and]
    exact Nat.and_two_pow_sub_one_eq_mod _ 31
  have beyond : bits &&& 0x7FFFFFFF > 0x7F800000 := by
    rw [gt_iff_lt, UInt32.lt_iff_toNat_lt, low]
    exact nan
  have top : bits.toNat / 2 ^ 16 = (bits.toNat / 2 ^ 31 * 2 ^ 8 + 255) * 2 ^ 7 + bits.toNat / 2 ^
    16 % 2 ^ 7 := by
    omega
  have payload : bits.toNat / 2 ^ 16 % 2 ^ 7 ||| 64 < 2 ^ 7 :=
    Nat.or_lt_two_pow (Nat.mod_lt _ (by decide)) (by decide)
  refine ⟨bits.toNat / 2 ^ 16 % 2 ^ 7 ||| 64, Nat.right_le_or, payload, ?_⟩
  rw [fp32BitsToBf16Bits, if_pos beyond, UInt16.toNat_or, ← or_eq_add payload, ← Nat.or_assoc,
    or_eq_add (Nat.mod_lt _ (by decide)), ← top]
  simp only [UInt32.toNat_toUInt16, UInt32.toNat_shiftRight, UInt32.reduceToNat, Nat.reduceMod,
    Nat.shiftRight_eq_div_pow, UInt16.reduceToNat]
  congr 1
  omega

/-- The parts of a half-width pattern put together. -/
theorem brain_parts {s c : Nat} (least : c < 2 ^ 15) :
    brain.negative (s * 2 ^ 15 + c) = decide (s % 2 = 1) ∧ brain.code (s * 2 ^ 15 + c) = c := by
  have high : (s * 2 ^ 15 + c) / 2 ^ 15 = s := by omega
  constructor
  · change decide ((s * 2 ^ 15 + c) / 2 ^ 15 % 2 = 1) = _
    rw [high]
  · change (s * 2 ^ 15 + c) % 2 ^ 15 = c
    omega

theorem converts_brain : Converts single brain (fun p => p % 2 = 0) UInt32.toNat
    (fun bits => (fp32BitsToBf16Bits bits).toNat) := by
  have numbers {bits : UInt32} (number : bits.toNat % 2 ^ 31 ≤ 255 * 2 ^ 23) :
      brain.code (fp32BitsToBf16Bits bits).toNat = narrowedBrain (bits.toNat % 2 ^ 31) := by
    have within := narrowedBrain_le number
    rw [fp32BitsToBf16Bits_eq number]
    exact (brain_parts (by omega)).2
  constructor
  · intro bits
    rw [negative_single]
    rcases Nat.lt_or_ge (255 * 2 ^ 23) (bits.toNat % 2 ^ 31) with nan | number
    · obtain ⟨r, -, least, made⟩ := fp32BitsToBf16Bits_nan nan
      have parts : (bits.toNat / 2 ^ 31 * 2 ^ 8 + 255) * 2 ^ 7 + r =
          bits.toNat / 2 ^ 31 * 2 ^ 15 + (255 * 2 ^ 7 + r) := by omega
      rw [made, parts]
      exact (brain_parts (by omega)).1
    · have within := narrowedBrain_le number
      rw [fp32BitsToBf16Bits_eq number]
      exact (brain_parts (by omega)).1
  · intro bits finite
    have less : bits.toNat % 2 ^ 31 < 255 * 2 ^ 23 := finite
    have within := narrowedBrain_le (Nat.le_of_lt less)
    exact ⟨_, narrowedBrain_rounds less, (numbers (Nat.le_of_lt less)).trans (Nat.min_eq_left within).symm⟩
  · intro bits infinite
    have same : bits.toNat % 2 ^ 31 = 255 * 2 ^ 23 := infinite
    exact (numbers (Nat.le_of_eq same)).trans (by rw [same]; rfl)
  · intro bits nan
    obtain ⟨r, some_, least, made⟩ := fp32BitsToBf16Bits_nan nan
    have parts : (bits.toNat / 2 ^ 31 * 2 ^ 8 + 255) * 2 ^ 7 + r =
        bits.toNat / 2 ^ 31 * 2 ^ 15 + (255 * 2 ^ 7 + r) := by omega
    rw [made, parts, (brain_parts (by omega)).2]
    change 255 * 2 ^ 7 < _
    omega

/-- The bit that rounds is the first of those that fall off. -/
theorem round_bit_iff {n k : Nat} : n / 2 ^ k % 2 = if 2 ^ (k + 1) ≤ 2 * (n % 2 ^ (k + 1)) then 1 else 0 := by
  have parts : n % 2 ^ (k + 1) = n % 2 ^ k + 2 ^ k * (n / 2 ^ k % 2) := Nat.mod_mul
  have small := Nat.mod_lt n (Nat.two_pow_pos k)
  rcases Nat.mod_two_eq_zero_or_one (n / 2 ^ k) with zero | one
  · rw [zero] at parts ⊢
    rw [Nat.pow_succ] at *
    rw [if_neg (by omega)]
  · rw [one] at parts ⊢
    rw [Nat.pow_succ] at *
    rw [if_pos (by omega)]

/-- Rounded by one bit, ties go away from zero. -/
theorem rounds_half {e n k : Nat} (normal : 1 ≤ e) (most : n / 2 ^ (k + 1) < 2 ^ 11)
    (least : e = 1 ∨ 2 ^ 10 ≤ n / 2 ^ (k + 1)) :
    Rounds half.magnitude (fun _ => False) (scaled n (e - 26 - k))
      ((e - 1) * 2 ^ 10 + n / 2 ^ (k + 1) + n / 2 ^ k % 2) := by
  have rounds : Rounds half.magnitude (fun _ => False) _ _ :=
    Format.rounds_shift (f := half) (n := n) (k := k + 1) normal most least
  have place : (e : Int) - half.bias - half.mantBits - (k + 1 : Nat) = e - 26 - k := by
    simp only [half]
    omega
  have bit : (if 2 ^ (k + 1) < 2 * (n % 2 ^ (k + 1)) ∨ 2 ^ (k + 1) = 2 * (n % 2 ^ (k + 1)) ∧ ¬ False
      then 1 else 0) = n / 2 ^ k % 2 := by
    rw [round_bit_iff]
    congr 1
    simp only [not_false_eq_true, and_true, le_iff_lt_or_eq]
  rw [place, bit] at rounds
  exact rounds

/-- What is below half the least subnormal. -/
theorem rounds_half_tiny {a : Nat} (tiny : a < 102 * 2 ^ 23) :
    Rounds half.magnitude (fun _ => False) (single.magnitude a) 0 := by
  have below : single.magnitude a < single.magnitude (102 * 2 ^ 23) := Format.magnitude_strictMono tiny
  have limit : single.magnitude (102 * 2 ^ 23) = scaled 1 (-25) := by
    have power := magnitude_single (e := 102) (m := 0) (by decide) (by decide) (Nat.add_zero _).symm
    have place : ((102 : Nat) : Int) - 150 = -25 - (23 : Nat) := by decide
    rw [power, place]
    exact scaled_shift 1 23 (-25)
  have first : half.magnitude 1 = scaled 2 (-25) := by
    have step := Format.magnitude_eq (f := half) (e := 1) (q := 1) (by decide) (by decide) (.inl rfl)
    have place : ((1 : Nat) : Int) - half.bias - half.mantBits = -24 := by decide
    have shift : (-25 : Int) = -24 - (1 : Nat) := by decide
    rw [place] at step
    rw [shift]
    exact step.trans (scaled_shift 1 1 (-24)).symm
  have double : 2 * scaled 1 (-25) = scaled 2 (-25) := scaled_two 1 (-25)
  have under : 2 * single.magnitude a < half.magnitude 0 + half.magnitude (0 + 1) := by
    rw [Format.magnitude_zero, zero_add, Nat.zero_add, first, ← double, ← limit]
    linarith
  apply rounds_down Format.magnitude_strictMono
  · rw [Format.magnitude_zero]
    exact Format.magnitude_nonneg
  · exact le_of_lt under
  · intro same
    linarith

theorem narrowedHalf_rounds {e m : Nat} (finite : e < 255) (least : m < 2 ^ 23) :
    ∃ c, Rounds half.magnitude (fun _ => False) (single.magnitude (e * 2 ^ 23 + m)) c ∧
      narrowedHalf e m = min c (31 * 2 ^ 10) := by
  rcases Nat.lt_or_ge e 102 with tiny | more
  · refine ⟨0, rounds_half_tiny (by omega), ?_⟩
    rw [narrowedHalf, if_neg (by omega), if_neg (by omega), if_pos (by omega), if_pos tiny]
    rfl
  · rw [magnitude_single (by omega) least rfl]
    rcases Nat.lt_or_ge 112 e with normal | low
    · have rounds := rounds_half (e := e - 112) (n := 2 ^ 23 + m) (k := 12) (by omega) (by omega) (by omega)
      have place : ((e - 112 : Nat) : Int) - 26 - (12 : Nat) = e - 150 := by omega
      rw [place] at rounds
      refine ⟨_, rounds, ?_⟩
      rw [narrowedHalf, if_neg (by omega)]
      by_cases large : 143 ≤ e
      · rw [if_pos large]
        omega
      · rw [if_neg large, if_neg (by omega)]
        omega
    · obtain ⟨j, rest⟩ := Nat.exists_eq_add_of_le low
      have shifted (i : Nat) : (2 ^ 23 + m) / 2 ^ (113 - e) / 2 ^ i = (2 ^ 23 + m) / 2 ^ (j + 1 + i) := by
        rw [Nat.div_div_eq_div_mul, ← Nat.pow_add]
        congr 3
        omega
      have small : (2 ^ 23 + m) / 2 ^ (j + 13 + 1) < 2 ^ 11 := by
        have part := Nat.div_le_self ((2 ^ 23 + m) / 2 ^ 14) (2 ^ j)
        rw [Nat.div_div_eq_div_mul, ← Nat.pow_add, Nat.add_comm 14] at part
        exact lt_of_le_of_lt part (by omega)
      have rounds := rounds_half (e := 1) (n := 2 ^ 23 + m) (k := j + 13) (by omega) small (.inl rfl)
      have place : ((1 : Nat) : Int) - 26 - (j + 13 : Nat) = e - 150 := by omega
      rw [place] at rounds
      refine ⟨_, rounds, ?_⟩
      rw [narrowedHalf, if_neg (by omega), if_neg (by omega), if_pos low, if_neg (by omega)]
      simp only [shifted]
      have top : j + 1 + 13 = j + 13 + 1 := by omega
      have next : j + 1 + 12 = j + 13 := by omega
      rw [top, next]
      omega

theorem half_parts {s c : Nat} (least : c < 2 ^ 15) :
    half.negative (s * 2 ^ 15 + c) = decide (s % 2 = 1) ∧ half.code (s * 2 ^ 15 + c) = c := by
  have high : (s * 2 ^ 15 + c) / 2 ^ 15 = s := by omega
  constructor
  · change decide ((s * 2 ^ 15 + c) / 2 ^ 15 % 2 = 1) = _
    rw [high]
  · change (s * 2 ^ 15 + c) % 2 ^ 15 = c
    omega

theorem converts_half : Converts single half (fun _ => False) UInt32.toNat
    (fun bits => (fp32BitsToFp16Bits bits).toNat) := by
  have parts (bits : UInt32) : half.negative (fp32BitsToFp16Bits bits).toNat = single.negative bits.toNat ∧
      half.code (fp32BitsToFp16Bits bits).toNat =
        narrowedHalf (bits.toNat % 2 ^ 31 / 2 ^ 23) (bits.toNat % 2 ^ 31 % 2 ^ 23) := by
    have least : bits.toNat % 2 ^ 31 % 2 ^ 23 < 2 ^ 23 := Nat.mod_lt _ (by decide)
    have made := fp32BitsToFp16Bits_eq (Format.fields_eq single bits.toNat)
    obtain ⟨sign, code⟩ := half_parts (s := (single.negative bits.toNat).toNat)
      (narrowedHalf_lt (bits.toNat % 2 ^ 31 / 2 ^ 23) least)
    change _ = _ * 2 ^ 15 + narrowedHalf (bits.toNat % 2 ^ 31 / 2 ^ 23) (bits.toNat % 2 ^ 31 % 2 ^ 23) at made
    rw [made]
    refine ⟨sign.trans ?_, code⟩
    cases single.negative bits.toNat <;> rfl
  constructor
  · exact fun bits => (parts bits).1
  · intro bits finite
    have less : bits.toNat % 2 ^ 31 < 255 * 2 ^ 23 := finite
    have least : bits.toNat % 2 ^ 31 % 2 ^ 23 < 2 ^ 23 := Nat.mod_lt _ (by decide)
    obtain ⟨c, rounds, made⟩ := narrowedHalf_rounds (e := bits.toNat % 2 ^ 31 / 2 ^ 23) (by omega) least
    rw [Nat.div_add_mod'] at rounds
    exact ⟨c, rounds, (parts bits).2.trans made⟩
  · intro bits infinite
    have same : bits.toNat % 2 ^ 31 = 255 * 2 ^ 23 := infinite
    refine (parts bits).2.trans ?_
    rw [same]
    rfl
  · intro bits nan
    have more : 255 * 2 ^ 23 < bits.toNat % 2 ^ 31 := nan
    have ones : bits.toNat % 2 ^ 31 / 2 ^ 23 = 255 := by omega
    rw [(parts bits).2, ones, narrowedHalf, if_pos rfl, if_neg (by omega)]
    decide

/-- bfloat16: ties go to the even pattern. -/
theorem brain_correct : CorrectlyRounds single brain (fun out _ _ => out % 2 = 0) UInt32.toNat
    (fun bits => (fp32BitsToBf16Bits bits).toNat) := by
  apply converts_brain.correct (by decide) (by decide) (by decide)
  · intro out even _ _
    have same : out % 2 ^ 15 % 2 = 0 := even
    omega
  · intro out d next odd
    have same : out % 2 ^ 15 = d + 1 := next
    omega

/-- Half precision: ties go away from zero. -/
theorem half_correct : CorrectlyRounds single half (fun _ y z => z < y) UInt32.toNat
    (fun bits => (fp32BitsToFp16Bits bits).toNat) := by
  apply converts_half.correct (by decide) (by decide) not_false
  · intro out stays
    exact stays.elim
  · intro out d _ _
    exact Format.magnitude_strictMono (Nat.lt_succ_self d)

/-- Single precision, from double: ties go to the even pattern. -/
theorem single_correct : CorrectlyRounds double single (fun out _ _ => out % 2 = 0) UInt64.toNat
    (fun bits => (f64AsF32 bits).toNat) := by
  have narrowed : ∀ bits : UInt64, (f64AsF32 bits).toNat = double.convert single bits.toNat := by
    intro bits
    have small : double.convert single bits.toNat < 2 ^ 32 := Format.convert_lt (by decide)
    rw [f64AsF32, UInt32.toNat_ofNat', Nat.mod_eq_of_lt small]
  simp only [narrowed]
  apply (Format.converts_convert (by decide)).correct (by decide) (by decide) (by decide)
  · intro out even _ _
    have same : out % 2 ^ 31 % 2 = 0 := even
    omega
  · intro out d next odd
    have same : out % 2 ^ 31 = d + 1 := next
    omega

/-- Elements narrowed together. -/
def chunkSize : Nat := 16384

/-- The loop both narrowing casts are; nothing is answered if it indexes out of range. -/
def narrowChunks (narrow : UInt32 → UInt16) (data : Bytes) : Option (Except MoonclipError Bytes) :=
  if data.length % 4 ≠ 0 then
    some (.error (.config ("fp32 data length " ++ toString data.length ++ " is not a multiple of 4")))
  else
    let elements := data.length / 4
    .ok <$> fillChunks (chunkSize * 2) (chunks (chunkSize * 4) data)
      (fun src dst => writeRows (src.length / 4) 2 (fun i j => do
        let bits := u32 [← src[i * 4]?, ← src[i * 4 + 1]?, ← src[i * 4 + 2]?, ← src[i * 4 + 3]?]
        (leBytes 2 (narrow bits).toNat)[j]?) dst) (List.replicate (elements * 2) 0)

/-- Element `i` of a buffer. -/
def element (size : Nat) (data : Bytes) (i : Nat) : Bytes := (data.drop (i * size)).take size

theorem element_four (data : Bytes) {i : Nat} (within : i * 4 + 4 ≤ data.length) :
    ∃ a b c d, data[i * 4]? = some a ∧ data[i * 4 + 1]? = some b ∧ data[i * 4 + 2]? = some c ∧
      data[i * 4 + 3]? = some d ∧ element 4 data i = [a, b, c, d] := by
  have here : data.drop (i * 4) = data[i * 4] :: data[i * 4 + 1] :: data[i * 4 + 2] :: data[i * 4 + 3] ::
      data.drop (i * 4 + 4) := by
    rw [List.drop_eq_getElem_cons (by omega), List.drop_eq_getElem_cons (by omega),
      List.drop_eq_getElem_cons (by omega), List.drop_eq_getElem_cons (by omega)]
  refine ⟨_, _, _, _, List.getElem?_eq_getElem (by omega), List.getElem?_eq_getElem (by omega),
    List.getElem?_eq_getElem (by omega), List.getElem?_eq_getElem (by omega), ?_⟩
  rw [element, here]
  rfl

/-- A piece's elements are the buffer's. -/
theorem element_piece {data : Bytes} {k b i : Nat} (small : i < k) :
    element 4 ((data.drop (b * (k * 4))).take (k * 4)) i = element 4 data (b * k + i) := by
  have place : b * (k * 4) + i * 4 = (b * k + i) * 4 := by
    rw [Nat.add_mul, Nat.mul_assoc]
  have room : min 4 (k * 4 - i * 4) = 4 := by omega
  rw [element, List.drop_take, List.drop_drop, List.take_take, room, place, element]

/-- What a cast of two-byte numbers makes of every element. -/
def narrowed (narrow : UInt32 → UInt16) (data : Bytes) (i : Nat) : Bytes :=
  leBytes 2 (narrow (u32 (element 4 data i))).toNat

theorem length_narrowed {narrow : UInt32 → UInt16} {data : Bytes} {i : Nat} :
    (narrowed narrow data i).length = 2 := length_leBytes

theorem fillChunks_narrow {narrow : UInt32 → UInt16} {data : Bytes} {k : Nat} (positive : 0 < k)
    (whole : data.length % 4 = 0) :
    fillChunks (k * 2) (chunks (k * 4) data)
      (fun src dst => writeRows (src.length / 4) 2 (fun i j => do
        let bits := u32 [← src[i * 4]?, ← src[i * 4 + 1]?, ← src[i * 4 + 2]?, ← src[i * 4 + 3]?]
        (leBytes 2 (narrow bits).toNat)[j]?) dst) (List.replicate (data.length / 4 * 2) 0) =
      some (grid (data.length / 4) 2 fun i j => (narrowed narrow data i).getD j 0) := by
  have size : data.length = data.length / 4 * 4 := by omega
  apply fillChunks_grid (by decide) positive List.length_replicate
  · rw [length_chunks, size, count_chunks (by decide) positive, ← size]
  · intro b src dst here length
    have piece := getElem?_chunks here
    have read : src.length = min k (data.length / 4 - b * k) * 4 := by
      rw [← piece, List.length_take, List.length_drop, size, ← Nat.mul_assoc, ← Nat.sub_mul,
        Nat.mul_min_mul_right, Nat.mul_div_cancel _ (by decide)]
    have rows : src.length / 4 = min k (data.length / 4 - b * k) := by
      rw [read, Nat.mul_div_cancel _ (by decide)]
    rw [rows, writeRows_eq (f := fun i j => (narrowed narrow data (b * k + i)).getD j 0)]
    · rw [← length, List.drop_length, List.append_nil]
    · intro i row j column
      obtain ⟨b0, b1, b2, b3, at0, at1, at2, at3, four⟩ := element_four src (i := i) (by omega)
      have there : j < (narrowed narrow data (b * k + i)).length := by rwa [length_narrowed]
      rw [← piece, element_piece (by omega)] at four
      simp only [at0, at1, at2, at3, bind, Option.bind, ← four, List.getD_eq_getElem?_getD]
      change (narrowed narrow data (b * k + i))[j]? = _
      rw [List.getElem?_eq_getElem there]
      rfl
    · omega

theorem narrowChunks_whole {narrow : UInt32 → UInt16} {data : Bytes} (whole : data.length % 4 = 0) :
    narrowChunks narrow data =
      some (.ok (grid (data.length / 4) 2 fun i j => (narrowed narrow data i).getD j 0)) := by
  have positive : 0 < chunkSize := by decide
  rw [narrowChunks, if_neg (not_not.mpr whole)]
  simp only [fillChunks_narrow positive whole]
  rfl

/-- The loop is one pass over the elements. -/
theorem narrowChunks_eq {narrow : UInt32 → UInt16} {data : Bytes} : narrowChunks narrow data =
    some (convert "fp32" 4 (fun c => leBytes 2 (narrow (u32 c)).toNat) data) := by
  rw [convert]
  split
  · rename_i ragged
    have front : "fp32 data length " = "fp32" ++ " data length " := by decide
    have back : " is not a multiple of 4" = " is not a multiple of " ++ toString 4 := by decide
    rw [narrowChunks, if_pos ragged, front, back, ← String.append_assoc]
  · rename_i whole
    have count : (data.length + 4 - 1) / 4 = data.length / 4 := by omega
    rw [narrowChunks_whole (not_not.mp whole), chunks, count, List.flatMap_map, grid]
    rfl

/-- A cast of a buffer: each element where it was, and no others. -/
structure ElementWise (cast : Bytes → Option (Except MoonclipError Bytes)) (narrow : UInt32 → UInt16) :
    Prop where
  whole : ∀ data, data.length % 4 = 0 → ∃ out, cast data = some (.ok out) ∧
    out.length = data.length / 4 * 2 ∧
    ∀ i < data.length / 4, u16 (element 2 out i) = narrow (u32 (element 4 data i))
  ragged : ∀ data, data.length % 4 ≠ 0 → cast data =
    some (.error (.config ("fp32 data length " ++ toString data.length ++ " is not a multiple of 4")))

theorem elementWise_narrowChunks (narrow : UInt32 → UInt16) : ElementWise (narrowChunks narrow) narrow := by
  constructor
  · intro data whole
    refine ⟨grid (data.length / 4) 2 fun i j => (narrowed narrow data i).getD j 0, ?_, length_grid, ?_⟩
    · exact narrowChunks_whole whole
    · intro i small
      have here : element 2 (grid (data.length / 4) 2 fun i j => (narrowed narrow data i).getD j 0) i =
          narrowed narrow data i := row_grid small
      rw [here, u16, narrowed, ofLeBytes_leBytes (by exact (narrow _).toNat_lt)]
      exact UInt16.ofNat_toNat
  · intro data ragged
    rw [narrowChunks, if_pos ragged]

/-- The cast to bfloat16 as the source runs it. -/
def fp32ToBf16Chunks : Bytes → Option (Except MoonclipError Bytes) := narrowChunks fp32BitsToBf16Bits

def fp32ToFp16Chunks : Bytes → Option (Except MoonclipError Bytes) := narrowChunks fp32BitsToFp16Bits

/-- Both narrowing casts round correctly, ties to even for bfloat16 and away from zero for
half precision, and apply it to every element of a buffer in its place. -/
theorem narrowing_correctly_rounds :
    CorrectlyRounds single brain (fun out _ _ => out % 2 = 0) UInt32.toNat
      (fun bits => (fp32BitsToBf16Bits bits).toNat) ∧
    CorrectlyRounds single half (fun _ y z => z < y) UInt32.toNat
      (fun bits => (fp32BitsToFp16Bits bits).toNat) ∧
    ElementWise fp32ToBf16Chunks fp32BitsToBf16Bits ∧ ElementWise fp32ToFp16Chunks fp32BitsToFp16Bits ∧
    ∀ data, fp32ToBf16Chunks data = some (fp32ToBf16 data) ∧
      fp32ToFp16Chunks data = some (fp32ToFp16 data) := by
  refine ⟨brain_correct, half_correct, elementWise_narrowChunks _, elementWise_narrowChunks _, ?_⟩
  intro data
  exact ⟨narrowChunks_eq, narrowChunks_eq⟩

example : half.largest = 65504 ∧ half.largestUlp = 32 := by decide +kernel

end Cast
end Moonclip
