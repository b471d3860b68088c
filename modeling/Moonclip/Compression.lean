import Moonclip.Manifest
import Moonclip.Library.Blocks
import Moonclip.Library.Outcome

/-! Compression: one zstd frame per 4 MiB chunk, and the frame layout that lets
them be decoded apart. zstd itself is what the build links against; a frame is
assumed to delimit itself and to carry its content size. -/
namespace Moonclip
open Library.Outcome Library.Blocks

/-- The calls into zstd. -/
class Zstd where
  bulkCompress : Bytes → Int → Except String Bytes
  findFrameCompressedSize : Bytes → Option Nat
  getFrameContentSize : Bytes → Option Nat
  decompressToBuffer : Bytes → Nat → Except String Bytes
  decodeAll : Bytes → Except String Bytes
  /-- What a streaming decoder yields before its input ends or stops making sense. -/
  decoder : Bytes → Except String (Bytes × Option String)

/-- A frame of `zstd::bulk`: it delimits itself, whatever follows it, and its
header holds the size of what it decodes to. -/
class LawfulZstd [Zstd] : Prop where
  frame_ne_nil {data frame : Bytes} {level : Int} :
    Zstd.bulkCompress data level = .ok frame → frame ≠ []
  frame_size {data frame : Bytes} {level : Int} (rest : Bytes) :
    Zstd.bulkCompress data level = .ok frame →
      Zstd.findFrameCompressedSize (frame ++ rest) = some frame.length
  frame_content {data frame : Bytes} {level : Int} :
    Zstd.bulkCompress data level = .ok frame → Zstd.getFrameContentSize frame = some data.length
  frame_decode {data frame : Bytes} {level : Int} :
    Zstd.bulkCompress data level = .ok frame →
      Zstd.decompressToBuffer frame data.length = .ok data

namespace Compression
variable [Zstd]

def parallelChunk : Nat := 4 * 2 ^ 20

/-- Compress raw bytes according to the chosen algorithm. -/
def compress (data : Bytes) : CompressionAlgo → Except MoonclipError Bytes
  | .none => .ok data
  | .zstd level =>
    if data.length ≤ parallelChunk then
      (Zstd.bulkCompress data level).mapError .compression
    else do
      let frames ← (chunks parallelChunk data).mapM fun chunk =>
        (Zstd.bulkCompress chunk level).mapError .compression
      return frames.flatten

/-- One frame: where it starts, how long it is, what it decodes to. -/
structure Frame where
  offset : Nat
  size : Nat
  content : Nat
deriving DecidableEq, Repr

/-- Every frame takes at least a byte, so the length of the data is enough fuel. -/
def frames (data : Bytes) : Nat → Nat → Option (List Frame)
  | fuel, off =>
    if data.length ≤ off then some []
    else match fuel with
      | 0 => none
      | fuel + 1 => do
        let rest := data.drop off
        let csize ← Zstd.findFrameCompressedSize rest
        if csize == 0 || decide (rest.length < csize) then none
        else
          let dsize ← Zstd.getFrameContentSize (rest.take csize)
          let others ← frames data fuel (off + csize)
          return ⟨off, csize, dsize⟩ :: others

/-- Frame layout of (possibly multi-frame) zstd data. -/
def frameLayout (data : Bytes) : Option (List Frame) := frames data data.length 0

def decodeFrame (data : Bytes) (f : Frame) : Except MoonclipError Bytes :=
  if f.content = 0 then .ok []
  else do
    let out ← (Zstd.decompressToBuffer ((data.drop f.offset).take f.size) f.content).mapError
      .compression
    if out.length = f.content then return out
    else throw (.compression ("frame decompressed to " ++ toString out.length ++
      " bytes, expected " ++ toString f.content))

/-- Decompress bytes produced by `compress`. -/
def decompress (data : Bytes) : CompressionAlgo → Except MoonclipError Bytes
  | .none => .ok data
  | .zstd _ =>
    if data.isEmpty then .ok []
    else match frameLayout data with
      | some layout => List.flatten <$> layout.mapM (decodeFrame data)
      | none => (Zstd.decodeAll data).mapError .compression

/-- Decompress at most `maxBytes` of raw data from the start of the stream. -/
def decompressPrefix (data : Bytes) (algo : CompressionAlgo) (maxBytes : Nat) :
    Except MoonclipError Bytes :=
  match algo with
  | .none => .ok (data.take maxBytes)
  | .zstd _ => do
    let (decoded, stopped) ← (Zstd.decoder data).mapError .compression
    match stopped with
    | none => return decoded.take maxBytes
    | some e =>
      if decoded.isEmpty && maxBytes != 0 then throw (.compression e)
      else return decoded.take maxBytes

section
variable [LawfulZstd] {level : Int}

/-- Frames laid end to end are found again, each with the piece it holds. -/
theorem frames_flatten {pieces blobs : List Bytes} {before data : Bytes} {fuel : Nat}
    (framed : List.Forall₂ (fun piece blob => Zstd.bulkCompress piece level = .ok blob) pieces blobs)
    (whole : data = before ++ blobs.flatten) (enough : blobs.flatten.length ≤ fuel) :
    ∃ layout, frames data fuel before.length = some layout ∧
      List.Forall₂ (fun f piece => decodeFrame data f = .ok piece) layout pieces := by
  induction framed generalizing before fuel with
  | nil =>
    subst whole
    exact ⟨[], by unfold frames; simp, .nil⟩
  | @cons piece blob pieces blobs head tail ih =>
    obtain ⟨byte, bytes, rfl⟩ := List.exists_cons_of_ne_nil (LawfulZstd.frame_ne_nil head)
    have rest : data.drop before.length = (byte :: bytes) ++ blobs.flatten := by simp [whole]
    have longer : ¬data.length ≤ before.length := by
      rw [whole]
      simp
    obtain ⟨fuel, rfl⟩ : ∃ n, fuel = n + 1 := ⟨fuel - 1, by simp at enough; omega⟩
    obtain ⟨layout, laid, decoded⟩ := @ih (before ++ (byte :: bytes)) fuel
      (by simp [whole]) (by simp at enough ⊢; omega)
    refine ⟨⟨before.length, (byte :: bytes).length, piece.length⟩ :: layout, ?_, .cons ?_ decoded⟩
    · rw [List.length_append] at laid
      unfold frames
      rw [if_neg longer]
      simp only [rest, LawfulZstd.frame_size _ head, Option.bind_eq_bind, Option.bind_some,
        List.take_left, LawfulZstd.frame_content head, laid, List.length_append]
      have sized : ((byte :: bytes).length == 0) = false := rfl
      have fits : ¬ (byte :: bytes).length + blobs.flatten.length < (byte :: bytes).length := by omega
      simp only [sized, Bool.false_or, decide_eq_true_eq, if_neg fits]
      rfl
    · unfold decodeFrame
      split
      · rename_i nothing
        simp [List.length_eq_zero_iff.mp nothing]
      · simp [rest, LawfulZstd.frame_decode head]

omit [LawfulZstd] in
/-- What is compressed is one frame after another, each of a piece of the data. -/
theorem compress_frames {data packed : Bytes} (compressed : compress data (.zstd level) = .ok packed) :
    ∃ pieces blobs : List Bytes,
      List.Forall₂ (fun piece blob => Zstd.bulkCompress piece level = .ok blob) pieces blobs ∧
        blobs.flatten = packed ∧ pieces.flatten = data := by
  simp only [compress] at compressed
  split at compressed
  · exact ⟨[data], [packed], .cons (by simpa using compressed) .nil, by simp, by simp⟩
  · simp only [bind_eq_ok, pure_eq_ok, mapM_eq_ok, mapError_eq_ok] at compressed
    obtain ⟨blobs, framed, rfl⟩ := compressed
    exact ⟨_, blobs, framed, rfl, flatten_chunks (by decide) data⟩

/-- Every frame says how much it holds, so they can be decoded apart. -/
theorem frameLayout_flatten {pieces blobs : List Bytes}
    (framed : List.Forall₂ (fun piece blob => Zstd.bulkCompress piece level = .ok blob) pieces blobs) :
    ∃ layout, frameLayout blobs.flatten = some layout ∧
      List.flatten <$> layout.mapM (decodeFrame blobs.flatten) = .ok pieces.flatten := by
  obtain ⟨layout, laid, decoded⟩ := @frames_flatten _ _ level pieces blobs [] _ _ framed rfl (Nat.le_refl _)
  refine ⟨layout, laid, ?_⟩
  simp only [map_eq_ok, mapM_eq_ok]
  exact ⟨pieces, decoded, rfl⟩

/-- Decompression undoes compression, whatever the algorithm and however many
frames the data took. -/
theorem decompress_compress {algo : CompressionAlgo} {data packed : Bytes}
    (compressed : compress data algo = .ok packed) : decompress packed algo = .ok data := by
  cases algo with
  | none => simpa [compress, decompress] using compressed.symm
  | zstd level =>
    obtain ⟨pieces, blobs, framed, rfl, rfl⟩ := compress_frames compressed
    simp only [decompress]
    split
    · rename_i nothing
      cases framed with
      | nil => rfl
      | cons head _ =>
        rw [List.flatten_cons, List.isEmpty_iff, List.append_eq_nil_iff] at nothing
        exact absurd nothing.1 (LawfulZstd.frame_ne_nil head)
    · obtain ⟨layout, laid, decoded⟩ := frameLayout_flatten framed
      simp only [laid, decoded]

end
end Compression
end Moonclip
