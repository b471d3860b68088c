import Moonclip.Compression

/-! XOR deltas and the byte-plane transpose they are stored under. -/
namespace Moonclip
open Library.Outcome Library.Blocks

namespace Shuffle

/-- Group `data` into `itemsize` byte planes; a trailing partial element is
copied through. The source spreads the loop over threads in blocks. -/
def shuffle (data : Bytes) (itemsize : Nat) : Bytes :=
  if itemsize ≤ 1 then data
  else
    let count := data.length / itemsize
    if count = 0 then data
    else
      grid itemsize count (fun plane i => data.getD (i * itemsize + plane) 0) ++
        data.drop (count * itemsize)

/-- Inverse of `shuffle`. -/
def unshuffle (data : Bytes) (itemsize : Nat) : Bytes :=
  if itemsize ≤ 1 then data
  else
    let count := data.length / itemsize
    if count = 0 then data
    else
      grid count itemsize (fun i plane => data.getD (plane * count + i) 0) ++
        data.drop (count * itemsize)

/-- Byte width of one element of `dtype`. -/
def elementSize (dtype : String) : Nat :=
  if dtype = "complex128" then 16
  else if dtype ∈ ["float64", "int64", "uint64", "complex64"] then 8
  else if dtype ∈ ["float32", "int32", "uint32", "complex32"] then 4
  else if dtype ∈ ["float16", "bfloat16", "int16", "uint16"] then 2
  else 1

variable {data : Bytes} {itemsize : Nat}

@[simp] theorem length_shuffle : (shuffle data itemsize).length = data.length := by
  by_cases bytes : itemsize ≤ 1
  · simp [shuffle, bytes]
  · by_cases short : data.length / itemsize = 0
    · simp [shuffle, bytes, short]
    · have whole := Nat.div_mul_le_self data.length itemsize
      simp only [shuffle, if_neg bytes, if_neg short, List.length_append, length_grid,
        List.length_drop, Nat.mul_comm itemsize]
      omega

theorem unshuffle_shuffle : unshuffle (shuffle data itemsize) itemsize = data := by
  by_cases bytes : itemsize ≤ 1
  · simp [shuffle, unshuffle, bytes]
  · by_cases short : data.length / itemsize = 0
    · simp [shuffle, unshuffle, bytes, short]
    · have whole := Nat.div_mul_le_self data.length itemsize
      generalize planes : data.length / itemsize = count at short whole
      have shuffled : shuffle data itemsize =
          grid itemsize count (fun plane i => data.getD (i * itemsize + plane) 0) ++
            data.drop (count * itemsize) := by
        simp only [shuffle, if_neg bytes, planes, if_neg short]
      have restored : grid count itemsize
          (fun i plane => (shuffle data itemsize).getD (plane * count + i) 0) =
            data.take (count * itemsize) := by
        refine eq_grid (by simpa using whole) fun i row plane column => ?_
        have position : i * itemsize + plane < count * itemsize := by
          have next : (i + 1) * itemsize ≤ count * itemsize := Nat.mul_le_mul_right _ row
          rw [Nat.succ_mul] at next
          omega
        have scattered : plane * count + i < itemsize * count := by
          have next : (plane + 1) * count ≤ itemsize * count := Nat.mul_le_mul_right _ column
          rw [Nat.succ_mul] at next
          omega
        have gathered : (shuffle data itemsize)[plane * count + i]? =
            some (data.getD (i * itemsize + plane) 0) := by
          rw [shuffled, List.getElem?_append_left (by simpa using scattered)]
          exact getElem?_grid column row
        have byte : data[i * itemsize + plane]? = some data[i * itemsize + plane] :=
          List.getElem?_eq_getElem (by omega)
        rw [List.getElem?_take_of_lt position, List.getD_eq_getElem?_getD, gathered]
        simp only [Option.getD_some, List.getD_eq_getElem?_getD, byte]
      have tail : (shuffle data itemsize).drop (count * itemsize) =
          data.drop (count * itemsize) := by
        rw [shuffled, List.drop_left' (by simp [Nat.mul_comm])]
      have unshuffled : unshuffle (shuffle data itemsize) itemsize =
          grid count itemsize (fun i plane => (shuffle data itemsize).getD (plane * count + i) 0) ++
            (shuffle data itemsize).drop (count * itemsize) := by
        simp only [unshuffle, if_neg bytes, length_shuffle, planes, if_neg short]
      rw [unshuffled, restored, tail, List.take_append_drop]

end Shuffle

namespace Delta

/-- Tensors smaller than this are not delta-encoded. -/
def deltaMinSize : Nat := 4096

/-- Window compared when deciding whether a delta is worth storing. -/
def decisionSample : Nat := 64 * 1024

/-- Below this many bytes a sample is too short to judge. -/
def decisionMin : Nat := 8 * 1024

/-- XOR two buffers; both callers check that the lengths agree. -/
def xorBytes (base target : Bytes) : Bytes := List.zipWith (· ^^^ ·) base target

/-- Whether XOR-delta encoding is worth it, judged on a compressed sample. -/
def paysOff [Zstd] (base target : Bytes) (algo : CompressionAlgo) (maxRatio : Float)
    (itemsize : Nat) : Bool :=
  let n := min (min base.length target.length) decisionSample
  if n < decisionMin then true
  else
    let xor := xorBytes (base.take n) (target.take n)
    let xor := if itemsize > 1 then Shuffle.shuffle xor itemsize else xor
    match Compression.compress xor algo, Compression.compress (target.take n) algo with
    | .ok deltaC, .ok fullC =>
      if fullC.isEmpty then true
      else decide (deltaC.length.toFloat < fullC.length.toFloat * maxRatio)
    | _, _ => true

/-- `none` when the sizes differ, the tensor is too small to bother, or nothing
changed. -/
def computeDelta (base target : Bytes) : Option Bytes :=
  if base.length ≠ target.length then none
  else if base.length < deltaMinSize then none
  else if base = target then none
  else some (xorBytes base target)

def applyDelta (base delta : Bytes) : Except MoonclipError Bytes :=
  if base.length ≠ delta.length then
    .error (.delta ("base length " ++ toString base.length ++ " != delta length " ++
      toString delta.length))
  else .ok (xorBytes base delta)

variable {base target delta : Bytes}

theorem xorBytes_xorBytes (same : base.length = target.length) :
    xorBytes base (xorBytes base target) = target := by
  induction base generalizing target with
  | nil => simpa [xorBytes] using (List.eq_nil_of_length_eq_zero same.symm).symm
  | cons b bs ih =>
    cases target with
    | nil => simp at same
    | cons t ts =>
      have rest := @ih ts (by simpa using same)
      simp only [xorBytes, List.zipWith_cons_cons, List.cons.injEq] at rest ⊢
      exact ⟨by rw [← UInt8.xor_assoc, UInt8.xor_self, UInt8.zero_xor], rest⟩

/-- The delta of two tensors, applied to the first, is the second. -/
theorem applyDelta_computeDelta (differ : computeDelta base target = some delta) :
    applyDelta base delta = .ok target := by
  unfold computeDelta at differ
  split at differ
  · contradiction
  · rename_i same
    have same : base.length = target.length := by simpa using same
    split at differ
    · contradiction
    · split at differ
      · contradiction
      · obtain rfl : xorBytes base target = delta := by simpa using differ
        have sized : (xorBytes base target).length = base.length := by simp [xorBytes, same]
        simp [applyDelta, sized, xorBytes_xorBytes same]

end Delta
end Moonclip
