import Moonclip.Library.Rounding

/-! Arithmetic on the patterns of floating-point formats: what one format's number is in
another, products and quotients. All of it is rounded to nearest, ties to even. -/
namespace Library.Floating
open Library.Rounding

theorem scaled_mul (n d : Nat) (z : Int) : scaled n z * d = scaled (n * d) z := by
  unfold scaled
  push_cast
  ring

namespace Format
variable {f g : Format} {bits code num den : Nat}

/-- A pattern's number as a multiple of the least above zero. -/
def units (f : Format) (code : Nat) : Nat :=
  f.significand ⟨false, code / 2 ^ f.mantBits, code % 2 ^ f.mantBits⟩ * 2 ^ (code / 2 ^ f.mantBits - 1)

/-- The pattern nearest to `num / den` times the least above zero. -/
def nearest (f : Format) (num den : Nat) : Nat :=
  let place := Nat.log2 (num / den) - f.mantBits
  let step := den * 2 ^ place
  let code := place * 2 ^ f.mantBits + num / step
  min (code + if step < 2 * (num % step) ∨ step = 2 * (num % step) ∧ ¬ code % 2 = 0 then 1 else 0) f.inf

/-- A sign put before a pattern. -/
def pack (f : Format) (negative : Bool) (code : Nat) : Nat :=
  negative.toNat * 2 ^ (f.expBits + f.mantBits) + code

/-- A NaN that signals nothing; its payload stays. -/
def quiet (f : Format) (code : Nat) : Nat := code ||| 2 ^ (f.mantBits - 1)

/-- A pattern without its sign in another format. A NaN keeps the part of its payload there
is room for. -/
def converted (f g : Format) (code : Nat) : Nat :=
  if code < f.inf then
    g.nearest (f.units code * 2 ^ (g.bias + g.mantBits)) (2 ^ (f.bias + f.mantBits))
  else if code = f.inf then g.inf
  else g.inf + g.quiet ((code - f.inf) * 2 ^ g.mantBits / 2 ^ f.mantBits)

def convert (f g : Format) (bits : Nat) : Nat := g.pack (f.negative bits) (f.converted g (f.code bits))

def ofNat (f : Format) (n : Nat) : Nat := f.nearest (n * 2 ^ (f.bias + f.mantBits - 1)) 1

/-- What is said where there is no number to say; its sign is the one x86-64 gives it. -/
def indefinite (f : Format) : Nat := f.pack true (f.inf + f.quiet 0)

/-- The outcome of an operation on two patterns: the first NaN among them, made quiet, and
otherwise what the operation makes of them without their signs, if it makes anything. -/
def operate (f : Format) (act : Nat → Nat → Option Nat) (a b : Nat) : Nat :=
  if f.inf < f.code a then f.pack (f.negative a) (f.inf + f.quiet (f.code a - f.inf))
  else if f.inf < f.code b then f.pack (f.negative b) (f.inf + f.quiet (f.code b - f.inf))
  else match act (f.code a) (f.code b) with
    | some code => f.pack (f.negative a != f.negative b) code
    | none => f.indefinite

def mul (f : Format) : Nat → Nat → Nat :=
  f.operate fun a b =>
    if a = f.inf ∨ b = f.inf then if a = 0 ∨ b = 0 then none else some f.inf
    else some (f.nearest (f.units a * f.units b) (2 ^ (f.bias + f.mantBits - 1)))

def div (f : Format) : Nat → Nat → Nat :=
  f.operate fun a b =>
    if a = f.inf then if b = f.inf then none else some f.inf
    else if b = f.inf then some 0
    else if b = 0 then if a = 0 then none else some f.inf
    else some (f.nearest (f.units a * 2 ^ (f.bias + f.mantBits - 1)) (f.units b))

theorem magnitude_units : f.magnitude code = scaled (f.units code) (1 - f.bias - f.mantBits) := by
  have moved := scaled_shift (f.significand ⟨false, code / 2 ^ f.mantBits, code % 2 ^ f.mantBits⟩)
    (code / 2 ^ f.mantBits - 1) (f.place ⟨false, code / 2 ^ f.mantBits, code % 2 ^ f.mantBits⟩)
  rw [magnitude, ← moved, units]
  congr 1
  simp only [place]
  omega

/-- What is left of a number above its last places. -/
theorem nearest_step {n : Nat} : n / 2 ^ (Nat.log2 n - f.mantBits) < 2 ^ (f.mantBits + 1) ∧
    (Nat.log2 n - f.mantBits + 1 = 1 ∨ 2 ^ f.mantBits ≤ n / 2 ^ (Nat.log2 n - f.mantBits)) := by
  have under : n < 2 ^ (Nat.log2 n + 1) := Nat.lt_log2_self
  rcases Nat.lt_or_ge f.mantBits (Nat.log2 n) with long | short
  · obtain ⟨k, places⟩ := Nat.exists_eq_add_of_lt long
    have some_ : n ≠ 0 := by
      rintro rfl
      simp at long
    have leading : 2 ^ Nat.log2 n ≤ n := Nat.log2_self_le some_
    have shift : Nat.log2 n - f.mantBits = k + 1 := by omega
    rw [shift]
    constructor
    · apply Nat.div_lt_of_lt_mul
      rw [← Nat.pow_add]
      exact lt_of_lt_of_le under (Nat.pow_le_pow_right (by decide) (by omega))
    · right
      rw [Nat.le_div_iff_mul_le (Nat.two_pow_pos _), ← Nat.pow_add]
      exact le_trans (Nat.pow_le_pow_right (by decide) (by omega)) leading
  · have none : Nat.log2 n - f.mantBits = 0 := by omega
    rw [none]
    refine ⟨?_, .inl rfl⟩
    rw [Nat.pow_zero, Nat.div_one]
    exact lt_of_lt_of_le under (Nat.pow_le_pow_right (by decide) (by omega))

theorem nearest_rounds (f : Format) (num : Nat) (positive : 0 < den) : ∃ c,
    Rounds f.magnitude (fun p => p % 2 = 0) (scaled num (1 - f.bias - f.mantBits) / den) c ∧
      f.nearest num den = min c f.inf := by
  let place := Nat.log2 (num / den) - f.mantBits
  let step := den * 2 ^ place
  let code := place * 2 ^ f.mantBits + num / step
  refine ⟨code + if step < 2 * (num % step) ∨ step = 2 * (num % step) ∧ ¬ code % 2 = 0 then 1 else 0,
    ?_, rfl⟩
  obtain ⟨most, least⟩ := nearest_step (f := f) (n := num / den)
  change num / den / 2 ^ place < _ at most
  change place + 1 = 1 ∨ _ ≤ num / den / 2 ^ place at least
  rw [Nat.div_div_eq_div_mul] at most least
  have some_ : (0 : Rat) < den := by exact_mod_cast positive
  have exponent : ((place + 1 : Nat) : Int) - f.bias - f.mantBits =
      1 - f.bias - f.mantBits + (place : Nat) := by
    push_cast
    ring
  have grid : ∀ q : Nat, scaled q (((place + 1 : Nat) : Int) - f.bias - f.mantBits) =
      (q * step : Nat) * ((2 : Rat) ^ ((1 : Int) - f.bias - f.mantBits) / den) := by
    intro q
    rw [exponent, ← scaled_shift _ place, add_sub_cancel_right, scaled]
    push_cast [step]
    field_simp
  have lower := magnitude_eq (f := f) (e := place + 1) (Nat.le_add_left 1 place) (Nat.le_of_lt most) least
  have upper := magnitude_eq (f := f) (e := place + 1) (Nat.le_add_left 1 place) most
    (least.imp_right fun large => Nat.le_succ_of_le large)
  rw [grid, Nat.add_sub_cancel] at lower upper
  rw [Nat.succ_mul] at upper
  rw [scaled, mul_div_assoc]
  exact rounds_quotient (div_pos (zpow_pos (by norm_num) _) some_)
    (Nat.mul_pos positive (Nat.two_pow_pos _)) lower upper

theorem code_pack {s : Bool} (small : code < 2 ^ (f.expBits + f.mantBits)) :
    f.code (f.pack s code) = code := by
  rw [Format.code, pack, Nat.add_comm, Nat.add_mul_mod_self_right, Nat.mod_eq_of_lt small]

theorem negative_pack {s : Bool} (small : code < 2 ^ (f.expBits + f.mantBits)) :
    f.negative (f.pack s code) = s := by
  have sign : f.pack s code / 2 ^ (f.expBits + f.mantBits) = s.toNat := by
    rw [pack, Nat.add_comm, Nat.add_mul_div_right _ _ (Nat.two_pow_pos _), Nat.div_eq_of_lt small,
      Nat.zero_add]
  simp only [negative, fields, sign]
  cases s <;> rfl

theorem pack_code (within : bits < 2 ^ (1 + f.expBits + f.mantBits)) :
    f.pack (f.negative bits) (f.code bits) = bits := by
  have parts := Nat.div_add_mod' (f.code bits) (2 ^ f.mantBits)
  calc f.pack (f.negative bits) (f.code bits) = f.join (f.fields bits) := by
        rw [fields_eq, join, pack, Nat.pow_add, ← Nat.mul_assoc, Nat.add_mul, Nat.add_assoc, parts]
    _ = bits := join_fields within

theorem pack_lt {s : Bool} (small : code < 2 ^ (f.expBits + f.mantBits)) :
    f.pack s code < 2 ^ (1 + f.expBits + f.mantBits) := by
  have most := s.toNat_le
  rw [Nat.add_assoc, Nat.pow_add, pack]
  nlinarith

theorem inf_add (f : Format) : f.inf + 2 ^ f.mantBits = 2 ^ (f.expBits + f.mantBits) := by
  have positive : 0 < 2 ^ f.expBits := Nat.two_pow_pos _
  rw [inf, Nat.pow_add, ← Nat.succ_mul]
  congr 1
  omega

theorem quiet_lt {payload : Nat} (mantissa : 1 ≤ f.mantBits) (small : payload < 2 ^ f.mantBits) :
    f.quiet payload < 2 ^ f.mantBits :=
  Nat.or_lt_two_pow small (Nat.pow_lt_pow_right (by decide) (by omega))

theorem quiet_pos (f : Format) (payload : Nat) : 0 < f.quiet payload :=
  lt_of_lt_of_le (Nat.two_pow_pos _) Nat.right_le_or

/-- What is quiet already stays as it is. -/
theorem quiet_eq {payload : Nat} (mantissa : 1 ≤ f.mantBits) (small : payload < 2 ^ f.mantBits)
    (large : 2 ^ (f.mantBits - 1) ≤ payload) : f.quiet payload = payload := by
  obtain ⟨k, places⟩ := Nat.exists_eq_add_of_le' mantissa
  rw [places, Nat.pow_succ] at small
  rw [places, Nat.add_sub_cancel] at large
  obtain ⟨r, rfl⟩ := Nat.exists_eq_add_of_le large
  have bits := Nat.two_pow_add_eq_or_of_lt (i := k) (b := r) (by omega) 1
  rw [Nat.mul_one] at bits
  rw [quiet, places, Nat.add_sub_cancel, bits, Nat.or_comm, ← Nat.or_assoc, Nat.or_self]

theorem payload_lt (nan : f.inf < code) (small : code < 2 ^ (f.expBits + f.mantBits)) :
    (code - f.inf) * 2 ^ g.mantBits / 2 ^ f.mantBits < 2 ^ g.mantBits := by
  have all := f.inf_add
  apply Nat.div_lt_of_lt_mul
  exact Nat.mul_lt_mul_of_pos_right (by omega) (Nat.two_pow_pos _)

theorem converted_lt (mantissa : 1 ≤ g.mantBits) (small : code < 2 ^ (f.expBits + f.mantBits)) :
    f.converted g code < 2 ^ (g.expBits + g.mantBits) := by
  have all := g.inf_add
  have positive : 0 < 2 ^ g.mantBits := Nat.two_pow_pos _
  unfold converted
  split
  · have most : g.nearest (f.units code * 2 ^ (g.bias + g.mantBits)) (2 ^ (f.bias + f.mantBits)) ≤ g.inf :=
      Nat.min_le_right _ _
    omega
  · split
    · omega
    · have less := quiet_lt mantissa (payload_lt (g := g) (by omega) small)
      omega

theorem code_lt_two_pow : f.code bits < 2 ^ (f.expBits + f.mantBits) := Nat.mod_lt _ (Nat.two_pow_pos _)

theorem convert_lt (mantissa : 1 ≤ g.mantBits) : f.convert g bits < 2 ^ (1 + g.expBits + g.mantBits) :=
  pack_lt (converted_lt mantissa code_lt_two_pow)

theorem code_convert (mantissa : 1 ≤ g.mantBits) : g.code (f.convert g bits) = f.converted g (f.code bits) :=
  code_pack (converted_lt mantissa code_lt_two_pow)

theorem converted_rounds (finite : code < f.inf) : ∃ c,
    Rounds g.magnitude (fun p => p % 2 = 0) (f.magnitude code) c ∧ f.converted g code = min c g.inf := by
  obtain ⟨c, rounds, out⟩ := g.nearest_rounds (f.units code * 2 ^ (g.bias + g.mantBits))
    (Nat.two_pow_pos (f.bias + f.mantBits))
  have same : scaled (f.units code * 2 ^ (g.bias + g.mantBits)) (1 - g.bias - g.mantBits) /
      (2 ^ (f.bias + f.mantBits) : Nat) = f.magnitude code := by
    have up := scaled_shift (f.units code) (g.bias + g.mantBits) 1
    have down := scaled_shift (f.units code) (f.bias + f.mantBits) 1
    push_cast [← sub_sub] at up down
    rw [up, magnitude_units, div_eq_iff (by positivity), scaled_mul, down]
  rw [same] at rounds
  exact ⟨c, rounds, by rw [converted, if_pos finite, out]⟩

/-- Every conversion is correctly rounded. -/
theorem converts_convert {α : Type} {source : α → Nat} (mantissa : 1 ≤ g.mantBits) :
    Converts f g (fun p => p % 2 = 0) source fun a => f.convert g (source a) where
  sign a := negative_pack (converted_lt mantissa code_lt_two_pow)
  finite a finite := by
    rw [code_convert mantissa]
    exact converted_rounds finite
  infinite a same := by
    rw [code_convert mantissa, converted, if_neg (by omega), if_pos same]
  nan a nan := by
    have some_ := g.quiet_pos ((f.code (source a) - f.inf) * 2 ^ g.mantBits / 2 ^ f.mantBits)
    rw [code_convert mantissa, converted, if_neg (by omega), if_neg (by omega)]
    omega

/-- What is a number of the other format is converted to it. -/
theorem converted_exact {c : Nat} (finite : code < f.inf) (below : c < g.inf)
    (same : g.magnitude c = f.magnitude code) : f.converted g code = c := by
  obtain ⟨d, rounds, out⟩ := converted_rounds (g := g) finite
  rw [← same] at rounds
  have here := rounds.unique magnitude_strictMono (rounds_self magnitude_strictMono)
  rw [out, here, Nat.min_eq_left (Nat.le_of_lt below)]

/-- All numbers of the one are numbers of the other. -/
structure Within (f g : Format) : Prop where
  wide : 2 ≤ f.expBits
  mantissa : 1 ≤ f.mantBits ∧ f.mantBits ≤ g.mantBits
  least : f.bias + f.mantBits ≤ g.bias
  largest : 2 ^ f.expBits + g.bias ≤ 2 ^ g.expBits + f.bias

namespace Within

theorem exists_magnitude (within : f.Within g) (finite : code < f.inf) :
    ∃ c < g.inf, g.magnitude c = f.magnitude code := by
  have four : 2 ^ 2 ≤ 2 ^ f.expBits := Nat.pow_le_pow_right (by decide) within.wide
  have largest := within.largest
  have least := within.least
  have mantissa := within.mantissa
  obtain ⟨e, q, normal, most, step, rfl⟩ := f.exists_step code
  rcases Nat.eq_zero_or_pos q with rfl | some_
  · have zero : e = 1 := by
      have positive : 0 < 2 ^ f.mantBits := Nat.two_pow_pos _
      omega
    subst zero
    refine ⟨0, Nat.mul_pos (by omega) (Nat.two_pow_pos _), ?_⟩
    simp [magnitude_zero]
  · have under : q < 2 ^ (Nat.log2 q + 1) := Nat.lt_log2_self
    have leading : 2 ^ Nat.log2 q ≤ q := Nat.log2_self_le (by omega)
    have places : Nat.log2 q < f.mantBits + 1 :=
      (Nat.pow_lt_pow_iff_right (by decide)).mp (lt_of_le_of_lt leading most)
    obtain ⟨k, shift⟩ := Nat.exists_eq_add_of_le (show Nat.log2 q ≤ g.mantBits by omega)
    have high : q * 2 ^ k < 2 ^ (g.mantBits + 1) := by
      have moved := Nat.mul_lt_mul_of_pos_right under (Nat.two_pow_pos k)
      rwa [← Nat.pow_add, show Nat.log2 q + 1 + k = g.mantBits + 1 by omega] at moved
    have low : 2 ^ g.mantBits ≤ q * 2 ^ k := by
      have moved := Nat.mul_le_mul_right (2 ^ k) leading
      rwa [← Nat.pow_add, ← shift] at moved
    have top : e + 1 < 2 ^ f.expBits := by
      rcases step with rfl | large
      · omega
      · have within : e * 2 ^ f.mantBits < (2 ^ f.expBits - 1) * 2 ^ f.mantBits := by
          refine lt_of_le_of_lt ?_ finite
          obtain ⟨e, rfl⟩ := Nat.exists_eq_add_of_le' normal
          rw [Nat.add_sub_cancel, Nat.succ_mul]
          omega
        have less := Nat.lt_of_mul_lt_mul_right within
        omega
    obtain ⟨e', exponent⟩ : ∃ e', e' + k + (f.bias + f.mantBits) = e + (g.bias + g.mantBits) :=
      ⟨e + (g.bias + g.mantBits) - (f.bias + f.mantBits) - k, by omega⟩
    refine ⟨(e' - 1) * 2 ^ g.mantBits + q * 2 ^ k, ?_, ?_⟩
    · have room : (e' + 1) * 2 ^ g.mantBits ≤ g.inf := Nat.mul_le_mul_right _ (by omega)
      obtain ⟨d, rfl⟩ := Nat.exists_eq_add_of_le' (show 1 ≤ e' by omega)
      rw [Nat.pow_succ] at high
      rw [Nat.add_sub_cancel]
      rw [Nat.succ_mul, Nat.succ_mul] at room
      omega
    · have place : (e' : Int) - g.bias - g.mantBits = e - f.bias - f.mantBits - k := by omega
      rw [magnitude_eq (by omega) (Nat.le_of_lt high) (.inr low),
        magnitude_eq normal (Nat.le_of_lt most) step, place, scaled_shift]

/-- A NaN's payload is moved up, and back down. -/
theorem converted_nan (within : f.Within g) (nan : f.inf + 2 ^ (f.mantBits - 1) ≤ code)
    (small : code < 2 ^ (f.expBits + f.mantBits)) : g.converted f (f.converted g code) = code := by
  have all := f.inf_add
  have positive : 0 < 2 ^ (f.mantBits - 1) := Nat.two_pow_pos _
  obtain ⟨one, more⟩ := within.mantissa
  obtain ⟨j, wider⟩ := Nat.exists_eq_add_of_le more
  obtain ⟨p, rfl⟩ := Nat.exists_eq_add_of_le (show f.inf ≤ code by omega)
  have low : 2 ^ (f.mantBits - 1) ≤ p := by omega
  have up : p * 2 ^ g.mantBits / 2 ^ f.mantBits = p * 2 ^ j := by
    rw [wider, Nat.pow_add, Nat.mul_left_comm, Nat.mul_div_cancel_left _ (Nat.two_pow_pos _)]
  have down : p * 2 ^ j * 2 ^ f.mantBits / 2 ^ g.mantBits = p := by
    rw [wider, Nat.mul_assoc, ← Nat.pow_add, Nat.add_comm j, Nat.mul_div_cancel _ (Nat.two_pow_pos _)]
  have under : p * 2 ^ j < 2 ^ g.mantBits := by
    rw [wider, Nat.pow_add]
    exact Nat.mul_lt_mul_of_pos_right (by omega) (Nat.two_pow_pos _)
  have leading : 2 ^ (g.mantBits - 1) ≤ p * 2 ^ j := by
    rw [show g.mantBits - 1 = f.mantBits - 1 + j by omega, Nat.pow_add]
    exact Nat.mul_le_mul_right _ low
  have there : f.converted g (f.inf + p) = g.inf + p * 2 ^ j := by
    rw [converted, if_neg (by omega), if_neg (by omega), Nat.add_sub_cancel_left, up,
      quiet_eq (by omega) under leading]
  have some_ : 0 < p * 2 ^ j := Nat.mul_pos (by omega) (Nat.two_pow_pos _)
  rw [there, converted, if_neg (by omega), if_neg (by omega), Nat.add_sub_cancel_left, down,
    quiet_eq one (by omega) low]

/-- To the wider format and back; of the NaN the quiet ones come back. -/
theorem convert_convert (within : f.Within g) (size : bits < 2 ^ (1 + f.expBits + f.mantBits))
    (quiet : f.inf < f.code bits → f.inf + 2 ^ (f.mantBits - 1) ≤ f.code bits) :
    g.convert f (f.convert g bits) = bits := by
  have mantissa : 1 ≤ g.mantBits := le_trans within.mantissa.1 within.mantissa.2
  have sign : g.negative (f.convert g bits) = f.negative bits :=
    negative_pack (converted_lt mantissa code_lt_two_pow)
  have back : g.converted f (f.converted g (f.code bits)) = f.code bits := by
    rcases Nat.lt_trichotomy (f.code bits) f.inf with finite | infinite | nan
    · obtain ⟨c, below, same⟩ := within.exists_magnitude finite
      rw [converted_exact finite below same, converted_exact below finite same.symm]
    · have there : f.converted g (f.code bits) = g.inf := by
        rw [converted, if_neg (by omega), if_pos infinite]
      rw [there, converted, if_neg (by omega), if_pos rfl, infinite]
    · exact within.converted_nan (quiet nan) code_lt_two_pow
  rw [convert, sign, code_convert mantissa, back, pack_code size]

end Within

end Format
end Library.Floating
