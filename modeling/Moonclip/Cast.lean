import Moonclip.Manifest
import Moonclip.Library.Arithmetic
import Moonclip.Library.Blocks
import Moonclip.Library.Codec
import Moonclip.Library.Outcome

/-! Casting tensors to the dtype they are stored as, and back. Every conversion
goes through fp32. -/
namespace Moonclip
open Library.Outcome Library.Blocks Library.Codec Library.Floating

/-- Supported storage dtypes; `none` keeps the original. -/
inductive DType where
  | float64
  | float32
  | bFloat16
  | float16
  | float8E4M3
  | float8E5M2
  | none
deriving DecidableEq, Repr

def DType.toStr : DType → String
  | .float64 => "float64"
  | .float32 => "float32"
  | .bFloat16 => "bfloat16"
  | .float16 => "float16"
  | .float8E4M3 => "float8_e4m3fn"
  | .float8E5M2 => "float8_e5m2"
  | .none => "none"

namespace Cast

/-- The loop of `glob_match`: `star` is the last `*` passed, `resume` where to
take up the name if it turns out to have eaten too little. -/
def globLoop (p n : List Char) : Nat → Nat → Nat → Option Nat → Nat → Bool
  | 0, _, _, _, _ => false
  | fuel + 1, pi, ni, star, resume =>
    if ni < n.length then
      if p[pi]? = some '*' then globLoop p n fuel (pi + 1) ni (some pi) ni
      else if pi < p.length ∧ p[pi]? = n[ni]? then globLoop p n fuel (pi + 1) (ni + 1) star resume
      else match star with
        | some s => globLoop p n fuel (s + 1) (resume + 1) star (resume + 1)
        | none => false
    else (p.drop pi).all (· == '*')

/-- Glob match with `*` as the only metacharacter. The name is resumed at most
once from each place, and the pattern walked at most once in between. -/
def globMatch (pattern name : String) : Bool :=
  let p := pattern.toList
  let n := name.toList
  globLoop p n ((n.length + 2) * (p.length + 2)) 0 0 none 0

end Cast

/-- Which dtype each tensor is stored as: ordered rules, the first match wins. -/
structure DTypePolicy where
  rules : List (String × DType)
deriving DecidableEq, Repr

namespace DTypePolicy

/-- Cast nothing: every tensor is stored as it arrives. -/
def none : DTypePolicy := ⟨[]⟩

def forTensor (policy : DTypePolicy) (name : String) : DType :=
  match policy.rules.find? fun rule => Cast.globMatch rule.1 name with
  | some rule => rule.2
  | .none => .none

@[simp] theorem forTensor_none {name : String} : none.forTensor name = .none := rfl

end DTypePolicy

namespace Cast

def isCastableFloat (dtype : String) : Bool :=
  dtype ∈ ["float32", "float16", "bfloat16", "float64"]

def single : Format := ⟨8, 23, 127⟩

def double : Format := ⟨11, 52, 1023⟩

/-- `as f64` of a single. A NaN is made quiet, as the hardware makes it. -/
def f32AsF64 (bits : UInt32) : UInt64 := UInt64.ofNat (single.convert double bits.toNat)

/-- `as f32` of a double. -/
def f64AsF32 (bits : UInt64) : UInt32 := UInt32.ofNat (double.convert single bits.toNat)

/-! An `f32` here is its bits. -/

def f32Of (n : Nat) : UInt32 := UInt32.ofNat (single.ofNat n)

def f32Mul (a b : UInt32) : UInt32 := UInt32.ofNat (single.mul a.toNat b.toNat)

def f32Div (a b : UInt32) : UInt32 := UInt32.ofNat (single.div a.toNat b.toNat)

/-- The shape of one float8 layout. -/
structure Fp8Format where
  name : String
  expBits : Nat
  mantBits : Nat
  bias : Int
  hasInf : Bool
  maxFinite : UInt32
  subnormalStep : UInt32
  nanBits : UInt8
  infBits : UInt8
  maxFiniteBits : UInt8
  maxNormalExp : Int
  maxNormalMant : UInt32

def e4m3fn : Fp8Format where
  name := "float8_e4m3fn"
  expBits := 4
  mantBits := 3
  bias := 7
  hasInf := false
  maxFinite := f32Of 448
  subnormalStep := f32Div (f32Of 1) (f32Of 512)
  nanBits := 0x7F
  infBits := 0x7F
  maxFiniteBits := 0x7E
  maxNormalExp := 15
  maxNormalMant := 6

def e5m2 : Fp8Format where
  name := "float8_e5m2"
  expBits := 5
  mantBits := 2
  bias := 15
  hasInf := true
  maxFinite := f32Of 57344
  subnormalStep := f32Div (f32Of 1) (f32Of 65536)
  nanBits := 0x7E
  infBits := 0x7C
  maxFiniteBits := 0x7B
  maxNormalExp := 30
  maxNormalMant := 3

def fp8FormatFor (dtype : String) : Option Fp8Format :=
  if dtype = "float8_e4m3fn" then some e4m3fn
  else if dtype = "float8_e5m2" then some e5m2
  else none

def fp8Format : DType → Option Fp8Format
  | .float8E4M3 => some e4m3fn
  | .float8E5M2 => some e5m2
  | _ => none

def u16 (bytes : Bytes) : UInt16 := UInt16.ofNat (ofLeBytes bytes)
def u32 (bytes : Bytes) : UInt32 := UInt32.ofNat (ofLeBytes bytes)
def u64 (bytes : Bytes) : UInt64 := UInt64.ofNat (ofLeBytes bytes)

/-- fp32 bits to bf16 bits, rounding to nearest even; NaN stays NaN. -/
def fp32BitsToBf16Bits (bits : UInt32) : UInt16 :=
  if bits &&& 0x7FFFFFFF > 0x7F800000 then (bits >>> 16).toUInt16 ||| 0x0040
  else
    let roundingBias : UInt32 := ((bits >>> 16) &&& 1) + 0x7FFF
    ((bits + roundingBias) >>> 16).toUInt16

def fp32BitsToFp16Bits (bits : UInt32) : UInt16 :=
  let sign := ((bits >>> 16) &&& 0x8000).toUInt16
  let exp : Int := ((bits >>> 23) &&& 0xFF).toNat
  let mantissa := bits &&& 0x7FFFFF
  let newExp := exp - 127 + 15
  if exp = 255 then
    if mantissa ≠ 0 then sign ||| 0x7E00 else sign ||| 0x7C00
  else if newExp ≥ 31 then sign ||| 0x7C00
  else if newExp ≤ 0 then
    if newExp < -10 then sign
    else
      let m := (mantissa ||| 0x800000) >>> UInt32.ofNat (1 - newExp).toNat
      let round := (m >>> 12) &&& 1
      sign ||| ((m >>> 13) + round).toUInt16
  else
    let round := (mantissa >>> 12) &&& 1
    let fp16 := sign ||| (UInt16.ofNat newExp.toNat <<< 10) ||| (mantissa >>> 13).toUInt16
    fp16 + round.toUInt16

/-- Shift a subnormal mantissa up to its leading one; it has at most ten places
to go. -/
def normalize : Nat → UInt32 → Nat → UInt32 × Nat
  | 0, m, e => (m, e)
  | fuel + 1, m, e => if m &&& 0x400 = 0 then normalize fuel (m <<< 1) (e + 1) else (m, e)

def fp16BitsToFp32Bits (bits : UInt16) : UInt32 :=
  let sign := (bits.toUInt32 &&& 0x8000) <<< 16
  let exp := ((bits >>> 10) &&& 0x1F).toUInt32
  let mantissa := (bits &&& 0x3FF).toUInt32
  if exp = 0 then
    if mantissa = 0 then sign
    else
      let (m, e) := normalize 10 mantissa 0
      let newExp : UInt32 := UInt32.ofNat (127 - 15 - e)
      sign ||| (newExp <<< 23) ||| ((m &&& 0x3FF) <<< 13)
  else if exp = 31 then sign ||| (0x7F800000 : UInt32) ||| (mantissa <<< 13)
  else
    let newExp := exp + 127 - 15
    sign ||| (newExp <<< 23) ||| (mantissa <<< 13)

/-- Shift right, rounding what falls off to nearest with ties to even. -/
def shiftRoundEven (value : UInt32) (n : Nat) : UInt32 :=
  if n = 0 then value
  else if n > 31 then 0
  else
    let keep := value >>> UInt32.ofNat n
    let rem := value &&& ((1 <<< UInt32.ofNat n) - 1)
    let half : UInt32 := 1 <<< UInt32.ofNat (n - 1)
    if rem > half ∨ (rem = half ∧ keep &&& 1 = 1) then keep + 1 else keep

/-- fp32 bits to float8 bits, rounding to nearest even and saturating. -/
def fp32BitsToFp8Bits (bits : UInt32) (fmt : Fp8Format) : UInt8 :=
  let sign := ((bits >>> 24) &&& 0x80).toUInt8
  let abs := bits &&& 0x7FFFFFFF
  if abs > 0x7F800000 then sign ||| fmt.nanBits
  else if abs = 0x7F800000 then sign ||| (if fmt.hasInf then fmt.infBits else fmt.nanBits)
  else if abs = 0 then sign
  else
    let exp : Int := (abs >>> 23).toNat - 127
    let mant := abs &&& 0x007FFFFF
    let newExp := exp + fmt.bias
    let drop := 23 - fmt.mantBits
    let significand : UInt32 := 0x00800000 ||| mant
    if newExp ≥ 1 then
      let rounded := shiftRoundEven significand drop
      let (e, m) :=
        if rounded >>> UInt32.ofNat (fmt.mantBits + 1) ≠ 0 then (newExp + 1, (0 : UInt32))
        else (newExp, rounded &&& ((1 <<< UInt32.ofNat fmt.mantBits) - 1))
      if e > fmt.maxNormalExp ∨ (e = fmt.maxNormalExp ∧ m > fmt.maxNormalMant) then
        sign ||| fmt.maxFiniteBits
      else sign ||| (UInt8.ofNat e.toNat <<< UInt8.ofNat fmt.mantBits) ||| m.toUInt8
    else
      let shift := drop + (1 - newExp).toNat
      sign ||| (shiftRoundEven significand shift).toUInt8

/-- The value of one float8 bit pattern, multiplied by `scale`. The sum of one and the
fraction is exact, and so is the power of two. -/
def fp8Decode (fmt : Fp8Format) (scale : UInt32) (b : UInt8) : UInt32 :=
  let maxE := 2 ^ fmt.expBits - 1
  let mantMask := 2 ^ fmt.mantBits - 1
  let e := (b.toNat / 2 ^ fmt.mantBits) % 2 ^ fmt.expBits
  let m := b.toNat % 2 ^ fmt.mantBits
  let magnitude : UInt32 :=
    if e = maxE ∧ fmt.hasInf then
      if m = 0 then 0x7F800000 else 0x7FC00000
    else if e = maxE ∧ ¬fmt.hasInf ∧ m = mantMask then 0x7FC00000
    else if e = 0 then f32Mul (f32Of m) fmt.subnormalStep
    else f32Mul (f32Div (f32Of (2 ^ fmt.mantBits + m)) (f32Of (2 ^ fmt.mantBits)))
      (UInt32.ofNat (e - fmt.bias + 127).toNat <<< 23)
  f32Mul (if b &&& 0x80 ≠ 0 then magnitude ^^^ 0x80000000 else magnitude) scale

/-- Largest finite magnitude in an fp32 buffer, or 0 if there is none. Magnitudes are in the
order of their bits. -/
def finiteAmax (fp32 : Bytes) : UInt32 :=
  (chunks 4 fp32).foldl (fun largest q =>
    let abs := u32 q &&& 0x7FFFFFFF
    if abs < 0x7F800000 ∧ abs > largest then abs else largest) 0

/-- The multiplier stored values are multiplied by on the way out; 1 where the
quotient is not a normal float. -/
def fp8Scale (fp32 : Bytes) (fmt : Fp8Format) : FiniteF32 :=
  let bits := f32Div (finiteAmax fp32) fmt.maxFinite
  if normal : bits &&& 0x7F800000 ≠ 0 ∧ bits &&& 0x7F800000 ≠ 0x7F800000 then ⟨bits, normal.2⟩
  else ⟨0x3F800000, by decide⟩

/-- One pass over elements of `width` bytes; the length must be a multiple. -/
def convert (name : String) (width : Nat) (element : Bytes → Bytes) (data : Bytes) :
    Except MoonclipError Bytes :=
  if data.length % width ≠ 0 then
    .error (.config (name ++ " data length " ++ toString data.length ++
      " is not a multiple of " ++ toString width))
  else .ok ((chunks width data).flatMap element)

def fp32ToBf16 : Bytes → Except MoonclipError Bytes :=
  convert "fp32" 4 fun c => leBytes 2 (fp32BitsToBf16Bits (u32 c)).toNat

def bf16ToFp32 : Bytes → Except MoonclipError Bytes :=
  convert "bf16" 2 fun c => leBytes 4 ((u16 c).toNat * 2 ^ 16)

def fp32ToFp16 : Bytes → Except MoonclipError Bytes :=
  convert "fp32" 4 fun c => leBytes 2 (fp32BitsToFp16Bits (u32 c)).toNat

def fp16ToFp32 : Bytes → Except MoonclipError Bytes :=
  convert "fp16" 2 fun c => leBytes 4 (fp16BitsToFp32Bits (u16 c)).toNat

def fp64ToFp32 : Bytes → Except MoonclipError Bytes :=
  convert "fp64" 8 fun c => leBytes 4 (f64AsF32 (u64 c)).toNat

def fp32ToFp64 : Bytes → Except MoonclipError Bytes :=
  convert "fp32" 4 fun c => leBytes 8 (f32AsF64 (u32 c)).toNat

def fp32ToFp8 (fmt : Fp8Format) (scale : FiniteF32) : Bytes → Except MoonclipError Bytes :=
  let inv := f32Div (f32Of 1) scale.val
  convert "fp32" 4 fun c => [fp32BitsToFp8Bits (f32Mul (u32 c) inv) fmt]

def fp8ToFp32 (fmt : Fp8Format) (scale : FiniteF32) (data : Bytes) : Bytes :=
  data.flatMap fun b => leBytes 4 (fp8Decode fmt scale.val b).toNat

def notCastable (dtype : String) : MoonclipError :=
  .config ("'" ++ dtype ++ "' is not a float dtype this build can cast")

def widenToFp32 (data : Bytes) (src : String) : Except MoonclipError Bytes :=
  if src = "float32" then .ok data
  else if src = "bfloat16" then bf16ToFp32 data
  else if src = "float16" then fp16ToFp32 data
  else if src = "float64" then fp64ToFp32 data
  else .error (notCastable src)

def narrowFromFp32 (data : Bytes) (dst : String) : Except MoonclipError Bytes :=
  if dst = "float32" then .ok data
  else if dst = "bfloat16" then fp32ToBf16 data
  else if dst = "float16" then fp32ToFp16 data
  else if dst = "float64" then fp32ToFp64 data
  else .error (notCastable dst)

/-- The bytes as stored, the dtype they are then of, and the multiplier a
float8 target needs. -/
def castTensor (data : Bytes) (srcDtype : String) (target : DType) :
    Except MoonclipError (Bytes × String × Option FiniteF32) :=
  if target = .none then .ok (data, srcDtype, none)
  else if srcDtype = target.toStr ∨ ¬isCastableFloat srcDtype then .ok (data, srcDtype, none)
  else match fp8Format target with
    | some fmt => do
      let wide ← if srcDtype = "float32" then pure data else widenToFp32 data srcDtype
      let scale := fp8Scale wide fmt
      let stored ← fp32ToFp8 fmt scale wide
      return (stored, target.toStr, some scale)
    | none =>
      if srcDtype = "float32" then do
        let stored ← narrowFromFp32 data target.toStr
        return (stored, target.toStr, none)
      else do
        let wide ← widenToFp32 data srcDtype
        let stored ← narrowFromFp32 wide target.toStr
        return (stored, target.toStr, none)

/-- Cast tensor bytes back from `storedDtype` to `originalDtype`. -/
def uncastTensor (data : Bytes) (storedDtype originalDtype : String) (scale : Option FiniteF32) :
    Except MoonclipError Bytes :=
  if storedDtype = originalDtype then .ok data
  else match fp8FormatFor storedDtype with
    | some fmt =>
      match scale with
      | none => .error (.config ("tensor stored as " ++ storedDtype ++
          " carries no quant_scale; its bytes cannot be turned back into " ++ originalDtype ++
          " without it"))
      | some scale =>
        let fp32 := fp8ToFp32 fmt scale data
        if originalDtype = "float32" then .ok fp32 else narrowFromFp32 fp32 originalDtype
    | none =>
      if ¬isCastableFloat storedDtype ∨ ¬isCastableFloat originalDtype then .ok data
      else if storedDtype = "float32" then narrowFromFp32 data originalDtype
      else if originalDtype = "float32" then widenToFp32 data storedDtype
      else do
        let wide ← widenToFp32 data storedDtype
        narrowFromFp32 wide originalDtype

/-- A cast changes the dtype, or nothing. -/
theorem castTensor_dtype {data stored : Bytes} {src dtype : String} {target : DType}
    {scale : Option FiniteF32} (cast : castTensor data src target = .ok (stored, dtype, scale)) :
    dtype = src ∧ stored = data ∧ scale = none ∨ dtype = target.toStr ∧ dtype ≠ src := by
  unfold castTensor at cast
  split at cast
  · simp only [Except.ok.injEq, Prod.mk.injEq] at cast
    exact .inl ⟨cast.2.1.symm, cast.1.symm, cast.2.2.symm⟩
  · split at cast
    · simp only [Except.ok.injEq, Prod.mk.injEq] at cast
      exact .inl ⟨cast.2.1.symm, cast.1.symm, cast.2.2.symm⟩
    · rename_i differ
      push Not at differ
      refine .inr ?_
      split at cast <;> split at cast <;>
        simp only [bind_eq_ok, pure_eq_ok, Prod.mk.injEq] at cast
      · obtain ⟨_, _, _, _, _, rfl, _⟩ := cast
        exact ⟨rfl, Ne.symm differ.1⟩
      · obtain ⟨_, _, _, _, _, rfl, _⟩ := cast
        exact ⟨rfl, Ne.symm differ.1⟩
      · obtain ⟨_, _, _, rfl, _⟩ := cast
        exact ⟨rfl, Ne.symm differ.1⟩
      · obtain ⟨_, _, _, _, _, rfl, _⟩ := cast
        exact ⟨rfl, Ne.symm differ.1⟩

/-- Whole elements of `size` bytes each. -/
def Whole (size : Nat) (data : Bytes) : Prop := data.length % size = 0

theorem whole_flatMap {α : Type} {n : Nat} {f : α → Bytes} (each : ∀ a, (f a).length = n)
    (items : List α) : Whole n (items.flatMap f) := by
  have length : (items.flatMap f).length = n * items.length := by
    induction items with
    | nil => rfl
    | cons a rest ih => rw [List.flatMap_cons, List.length_append, each, ih, List.length_cons,
        Nat.mul_succ, Nat.add_comm]
  rw [Whole, length, Nat.mul_mod_right]

theorem convert_ok {name : String} {width n : Nat} {element : Bytes → Bytes} {data : Bytes}
    (each : ∀ c, (element c).length = n) (whole : Whole width data) :
    ∃ out, convert name width element data = .ok out ∧ Whole n out :=
  ⟨_, if_neg (not_ne_iff.mpr whole), whole_flatMap each (chunks width data)⟩

theorem convert_whole {name : String} {width n : Nat} {element : Bytes → Bytes} {data out : Bytes}
    (each : ∀ c, (element c).length = n) (made : convert name width element data = .ok out) :
    Whole n out := by
  unfold convert at made
  split at made
  · contradiction
  · obtain rfl := Except.ok.inj made
    exact whole_flatMap each _

/-- How wide an element of a castable dtype is. -/
def width (dtype : String) : Nat :=
  if dtype = "float32" then 4 else if dtype = "float64" then 8 else 2

theorem castable_cases {dtype : String} (castable : isCastableFloat dtype = true) :
    dtype = "float32" ∨ dtype = "float16" ∨ dtype = "bfloat16" ∨ dtype = "float64" := by
  simpa [isCastableFloat] using castable

theorem narrow_ok {data : Bytes} {dst : String} (castable : isCastableFloat dst = true)
    (whole : Whole 4 data) : ∃ out, narrowFromFp32 data dst = .ok out := by
  rcases castable_cases castable with rfl | rfl | rfl | rfl
  · exact ⟨data, rfl⟩
  · exact (convert_ok (n := 2) (fun c => by simp) whole).imp fun _ => And.left
  · exact (convert_ok (n := 2) (fun c => by simp) whole).imp fun _ => And.left
  · exact (convert_ok (n := 8) (fun c => by simp) whole).imp fun _ => And.left

theorem widen_ok {data : Bytes} {src : String} (castable : isCastableFloat src = true)
    (whole : Whole (width src) data) : ∃ out, widenToFp32 data src = .ok out ∧ Whole 4 out := by
  rcases castable_cases castable with rfl | rfl | rfl | rfl
  · exact ⟨data, rfl, whole⟩
  · exact convert_ok (fun c => by simp) whole
  · exact convert_ok (fun c => by simp) whole
  · exact convert_ok (fun c => by simp) whole

/-- What was widened or narrowed is whole elements of the new dtype. -/
theorem widen_whole {data out : Bytes} {src : String} (other : src ≠ "float32")
    (made : widenToFp32 data src = .ok out) : Whole 4 out := by
  unfold widenToFp32 at made
  rw [if_neg other] at made
  split at made
  · exact convert_whole (fun c => by simp) made
  · split at made
    · exact convert_whole (fun c => by simp) made
    · split at made
      · exact convert_whole (fun c => by simp) made
      · contradiction

theorem narrow_whole {data out : Bytes} {dst : String} (whole : dst = "float32" → Whole 4 data)
    (made : narrowFromFp32 data dst = .ok out) : Whole (width dst) out := by
  unfold narrowFromFp32 at made
  split at made
  · rename_i same
    obtain rfl := Except.ok.inj made
    subst same
    exact whole rfl
  · split at made
    · rename_i same
      subst same
      exact convert_whole (n := 2) (fun c => by simp) made
    · split at made
      · rename_i same
        subst same
        exact convert_whole (n := 2) (fun c => by simp) made
      · split at made
        · rename_i same
          subst same
          exact convert_whole (n := 8) (fun c => by simp) made
        · contradiction

theorem uncast_fp8 {stored : Bytes} {src dtype : String} {fmt : Fp8Format} {scale : FiniteF32}
    (format : fp8FormatFor dtype = some fmt) (castable : isCastableFloat src = true) :
    ∃ out, uncastTensor stored dtype src (some scale) = .ok out := by
  unfold uncastTensor
  split
  · exact ⟨stored, rfl⟩
  · simp only [format]
    split
    · exact ⟨_, rfl⟩
    · exact narrow_ok castable (whole_flatMap (fun c => by simp) stored)

theorem uncast_float {stored : Bytes} {src dtype : String} {scale : Option FiniteF32}
    (format : fp8FormatFor dtype = none) (castable : isCastableFloat src = true)
    (whole : Whole (width dtype) stored) : ∃ out, uncastTensor stored dtype src scale = .ok out := by
  unfold uncastTensor
  split
  · exact ⟨stored, rfl⟩
  · simp only [format]
    split
    · exact ⟨stored, rfl⟩
    · rename_i both
      push Not at both
      split
      · rename_i same
        subst same
        exact narrow_ok castable whole
      · split
        · exact (widen_ok both.1 whole).imp fun _ => And.left
        · obtain ⟨wide, widened, four⟩ := widen_ok both.1 whole
          obtain ⟨out, narrowed⟩ := narrow_ok castable four
          exact ⟨out, by simp [widened, narrowed]⟩

/-- Whatever a cast changed can be cast back. -/
theorem uncast_ok {data stored : Bytes} {src dtype : String} {target : DType} {scale : Option FiniteF32}
    (cast : castTensor data src target = .ok (stored, dtype, scale)) (differ : dtype ≠ src) :
    ∃ out, uncastTensor stored dtype src scale = .ok out := by
  unfold castTensor at cast
  split at cast
  · simp only [Except.ok.injEq, Prod.mk.injEq] at cast
    exact absurd cast.2.1.symm differ
  · rename_i asked
    split at cast
    · simp only [Except.ok.injEq, Prod.mk.injEq] at cast
      exact absurd cast.2.1.symm differ
    · rename_i castable
      push Not at castable
      obtain ⟨other, castable⟩ := castable
      split at cast
      · rename_i fmt eight
        have format : fp8FormatFor target.toStr = some fmt := by
          cases target <;> simp_all [fp8Format, fp8FormatFor, DType.toStr]
        split at cast
        · simp only [bind_eq_ok, pure_eq_ok, Prod.mk.injEq] at cast
          obtain ⟨_, _, _, _, rfl, rfl, rfl⟩ := cast
          exact uncast_fp8 format castable
        · simp only [bind_eq_ok, pure_eq_ok, Prod.mk.injEq] at cast
          obtain ⟨_, _, _, _, rfl, rfl, rfl⟩ := cast
          exact uncast_fp8 format castable
      · rename_i plain
        have format : fp8FormatFor target.toStr = none := by
          cases target <;> simp_all [fp8Format, fp8FormatFor, DType.toStr]
        split at cast
        · rename_i single
          simp only [bind_eq_ok, pure_eq_ok, Prod.mk.injEq] at cast
          obtain ⟨_, narrowed, rfl, rfl, rfl⟩ := cast
          exact uncast_float format castable
            (narrow_whole (fun same => absurd (single.trans same.symm) other) narrowed)
        · rename_i single
          simp only [bind_eq_ok, pure_eq_ok, Prod.mk.injEq] at cast
          obtain ⟨_, widened, _, narrowed, rfl, rfl, rfl⟩ := cast
          exact uncast_float format castable
            (narrow_whole (fun _ => widen_whole single widened) narrowed)

end Cast
end Moonclip
