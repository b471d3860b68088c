import Moonclip.Compression

/-! What a build links against, on inputs small enough to compute by hand: zstd
frames that hold one raw block, and the hash of at most three bytes. -/
namespace Moonclip
namespace Linked

/-- Magic, a single-segment descriptor, one byte of content size, and the header
of a last raw block of that size. -/
def frameHeader (length : Nat) : Bytes :=
  [0x28, 0xB5, 0x2F, 0xFD, 0x20, UInt8.ofNat length, UInt8.ofNat (length * 8 + 1),
    UInt8.ofNat (length * 8 / 256), 0]

def rawFrame (data : Bytes) : Bytes := frameHeader data.length ++ data

/-- The content size of a frame of this kind. -/
def contentSize (frame : Bytes) : Option Nat := (frame[5]?).map UInt8.toNat

abbrev zstd : Zstd where
  bulkCompress data _ :=
    if data.length < 256 then .ok (rawFrame data) else .error "not one raw block"
  findFrameCompressedSize bytes := (contentSize bytes).map (· + 9)
  getFrameContentSize := contentSize
  decompressToBuffer frame capacity := .ok ((frame.drop 9).take capacity)
  decodeAll frame := .ok (frame.drop 9)
  decoder frame := .ok (frame.drop 9, none)

theorem contentSize_rawFrame {data : Bytes} (rest : Bytes) (small : data.length < 256) :
    contentSize (rawFrame data ++ rest) = some data.length := by
  simp [contentSize, rawFrame, frameHeader, Nat.mod_eq_of_lt small]

theorem bulkCompress_eq_ok {data frame : Bytes} {level : Int}
    (packed : zstd.bulkCompress data level = .ok frame) : data.length < 256 ∧ frame = rawFrame data := by
  change (if data.length < 256 then _ else _) = _ at packed
  split at packed
  · rename_i small
    exact ⟨small, (Except.ok.inj packed).symm⟩
  · contradiction

theorem zstd_lawful : @LawfulZstd zstd := by
  let _ := zstd
  constructor
  · intro data frame level packed
    obtain ⟨_, rfl⟩ := bulkCompress_eq_ok packed
    simp [rawFrame, frameHeader]
  · intro data frame level rest packed
    obtain ⟨small, rfl⟩ := bulkCompress_eq_ok packed
    change (contentSize (rawFrame data ++ rest)).map (· + 9) = _
    rw [contentSize_rawFrame rest small]
    simp [rawFrame, frameHeader]
  · intro data frame level packed
    obtain ⟨small, rfl⟩ := bulkCompress_eq_ok packed
    change contentSize (rawFrame data) = _
    rw [← List.append_nil (rawFrame data), contentSize_rawFrame [] small]
  · intro data frame level packed
    obtain ⟨_, rfl⟩ := bulkCompress_eq_ok packed
    change Except.ok (((rawFrame data).drop 9).take data.length) = _
    simp [rawFrame, frameHeader]

/-- The last mixing step of the 64-bit hash. -/
def avalanche (h : UInt64) : UInt64 :=
  let h := (h ^^^ (h >>> 33)) * 0xC2B2AE3D27D4EB4F
  let h := (h ^^^ (h >>> 29)) * 0x165667B19E3779F9
  h ^^^ (h >>> 32)

/-- One to three bytes: the first, the middle and the last, with the length. -/
def hashOf (first middle last : UInt8) (length : UInt32) : BitVec 128 :=
  let low : UInt32 :=
    (first.toUInt32 <<< 16) ||| (middle.toUInt32 <<< 24) ||| last.toUInt32 ||| (length <<< 8)
  let swapped : UInt32 := (low >>> 24) ||| ((low >>> 8) &&& (0xFF00 : UInt32)) |||
    ((low <<< 8) &&& (0xFF0000 : UInt32)) ||| (low <<< 24)
  let high : UInt32 := (swapped <<< 13) ||| (swapped >>> 19)
  let keyedLow := avalanche (low.toUInt64 ^^^ 0x87275A9B)
  let keyedHigh := avalanche (high.toUInt64 ^^^ 0x302C208B)
  keyedHigh.toBitVec ++ keyedLow.toBitVec

/-- The hash, for at most three bytes. -/
abbrev xxh3 : Xxh3 where
  xxh3_128
    | [] => 0x99AA06D3014798D86001C324468D497F
    | [a] => hashOf a a a 1
    | [a, b] => hashOf a b b 2
    | [a, b, c] => hashOf a b c 3
    | _ => 0

end Linked
end Moonclip
