import Moonclip.Linked

/-! Compressed data as a stream of frames: reading it frame by frame, reading it through,
and reading only the start of it come to the same bytes. -/
namespace Moonclip
open Library.Outcome Library.Blocks

/-- zstd's streaming decoders go through a concatenation of frames one by one, and end
with the last. Of no input at all nothing is said: they call that an incomplete frame. -/
class StreamingZstd [Zstd] : Prop where
  decodeAll_last {data frame : Bytes} {level : Int} :
    Zstd.bulkCompress data level = .ok frame → Zstd.decodeAll frame = .ok data
  decodeAll_frame {data frame rest more : Bytes} {level : Int} : Zstd.bulkCompress data level = .ok frame →
    rest ≠ [] → Zstd.decodeAll rest = .ok more → Zstd.decodeAll (frame ++ rest) = .ok (data ++ more)
  decoder_last {data frame : Bytes} {level : Int} :
    Zstd.bulkCompress data level = .ok frame → Zstd.decoder frame = .ok (data, none)
  decoder_frame {data frame rest more : Bytes} {level : Int} : Zstd.bulkCompress data level = .ok frame →
    rest ≠ [] → Zstd.decoder rest = .ok (more, none) → Zstd.decoder (frame ++ rest) = .ok (data ++ more, none)

namespace Compression

/-- A streaming decoder at work: what it is still to yield, and what stops it after
that, if not the end. -/
structure Decoder where
  rest : Bytes
  stopped : Option String

/-- One read: at least a byte while there is one, and no more than there is room for.
How much of it is up to the decoder. -/
def Decoder.read (portion : Decoder → Nat → Nat) (d : Decoder) (room : Nat) :
    Except String (Bytes × Decoder) :=
  if d.rest.isEmpty then
    match d.stopped with
    | none => .ok ([], d)
    | some e => .error e
  else
    let n := max 1 (min (portion d room) room)
    .ok (d.rest.take n, { d with rest := d.rest.drop n })

section
variable {portion : Decoder → Nat → Nat} {d : Decoder} {room : Nat}

theorem Decoder.read_done (done : d.rest = []) : d.read portion room =
    match d.stopped with
    | none => .ok ([], d)
    | some e => .error e := by
  unfold read
  rw [done, List.isEmpty_nil, if_pos rfl]

theorem Decoder.read_more (portion : Decoder → Nat → Nat) (more : d.rest ≠ [])
    (positive : 0 < room) : ∃ n, 1 ≤ n ∧ n ≤ room ∧
    d.read portion room = .ok (d.rest.take n, { d with rest := d.rest.drop n }) := by
  refine ⟨max 1 (min (portion d room) room), Nat.le_max_left .., by omega, ?_⟩
  unfold read
  rw [if_neg fun none => more (List.isEmpty_iff.mp none)]

end

/-- The loop of `decompress_prefix`: read until the buffer is full or nothing comes. -/
def fill (portion : Decoder → Nat → Nat) (maxBytes : Nat) : Nat → Bytes → Decoder → Except String Bytes
  | turns, filled, d =>
    if filled.length < maxBytes then
      match turns with
      | 0 => .error "still reading"
      | turns + 1 =>
        match d.read portion (maxBytes - filled.length) with
        | .ok (bytes, d) => if bytes.isEmpty then .ok filled else
            fill portion maxBytes turns (filled ++ bytes) d
        | .error e => if filled.isEmpty then .error e else .ok filled
    else .ok filled

variable [Zstd]

/-- `decompressPrefix` read by read. Each brings a byte, so `maxBytes` of them fill the
buffer, and one more finds the end. -/
def readPrefix (portion : Decoder → Nat → Nat) (data : Bytes) (algo : CompressionAlgo) (maxBytes : Nat) :
    Except MoonclipError Bytes :=
  match algo with
  | .none => .ok (data.take maxBytes)
  | .zstd _ => do
    let (decoded, stopped) ← (Zstd.decoder data).mapError .compression
    (fill portion maxBytes (maxBytes + 1) [] ⟨decoded, stopped⟩).mapError .compression

section
omit [Zstd]
variable {portion : Decoder → Nat → Nat} {maxBytes turns : Nat} {filled : Bytes} {d : Decoder}

/-- However the reads are portioned, the buffer holds the start of what is decoded. -/
theorem fill_eq (within : filled.length ≤ maxBytes) (enough : maxBytes < filled.length + turns) :
    fill portion maxBytes turns filled d =
      if (filled ++ d.rest).isEmpty ∧ maxBytes ≠ 0 then
        match d.stopped with
        | none => .ok []
        | some e => .error e
      else .ok ((filled ++ d.rest).take maxBytes) := by
  induction turns generalizing filled d with
  | zero => omega
  | succ turns ih =>
    unfold fill
    by_cases room : filled.length < maxBytes
    · rw [if_pos room]
      have some_ : maxBytes ≠ 0 := by omega
      by_cases done : d.rest = []
      · rw [Decoder.read_done done]
        by_cases nothing : filled = []
        · cases stopped : d.stopped <;> simp [nothing, done, some_]
        · cases stopped : d.stopped <;> simp [nothing, done, List.take_of_length_le within]
      · obtain ⟨n, least, most, read⟩ := Decoder.read_more portion done
          (show 0 < maxBytes - filled.length by omega)
        rw [read]
        have positive := List.length_pos_iff.mpr done
        have length : (d.rest.take n).length = min n d.rest.length := List.length_take
        have more : d.rest.take n ≠ [] := by
          intro none
          rw [none, List.length_nil] at length
          omega
        have next := @ih (filled ++ d.rest.take n) { d with rest := d.rest.drop n }
          (by rw [List.length_append]; omega) (by rw [List.length_append]; omega)
        rw [List.append_assoc, List.take_append_drop] at next
        simp [more, next]
    · rw [if_neg room]
      have full : filled.length = maxBytes := by omega
      by_cases nothing : maxBytes = 0
      · have none : filled = [] := List.eq_nil_of_length_eq_zero (full.trans nothing)
        simp [none, nothing]
      · have some_ : filled ≠ [] := by
          rintro rfl
          exact nothing full.symm
        simp [some_, ← full]

end

/-- Read by read it is the same prefix. -/
theorem readPrefix_eq {portion : Decoder → Nat → Nat} {data : Bytes} {algo : CompressionAlgo}
    {maxBytes : Nat} :
    readPrefix portion data algo maxBytes = decompressPrefix data algo maxBytes := by
  cases algo with
  | none => rfl
  | zstd level =>
    unfold readPrefix decompressPrefix
    cases decoding : Zstd.decoder data with
    | error e => rfl
    | ok made =>
      obtain ⟨decoded, stopped⟩ := made
      simp only [Except.mapError, bind, Except.bind]
      rw [fill_eq (Nat.zero_le _) (by simp)]
      cases stopped with
      | none =>
        by_cases nothing : decoded = []
        · by_cases zero : maxBytes = 0
          · simp [nothing, zero, pure, Except.pure]
          · simp [nothing, zero, pure, Except.pure]
        · simp [nothing, pure, Except.pure]
      | some e =>
        by_cases nothing : decoded = []
        · by_cases zero : maxBytes = 0
          · simp [nothing, zero, pure, Except.pure]
          · simp [nothing, zero, throw, throwThe, MonadExceptOf.throw]
        · simp [nothing, pure, Except.pure]

section
variable [LawfulZstd] [StreamingZstd] {level : Int} {piece blob : Bytes} {pieces blobs : List Bytes}

omit [StreamingZstd] in
/-- Another frame is more to read. -/
theorem flatten_ne_nil
    (framed : List.Forall₂ (fun piece blob => Zstd.bulkCompress piece level = .ok blob)
      (piece :: pieces) (blob :: blobs)) :
    (blob :: blobs).flatten ≠ [] := by
  cases framed with
  | cons head tail => simp [LawfulZstd.frame_ne_nil head]

/-- The sequential decoder reads frame after frame, to the last. -/
theorem decodeAll_flatten (framed : List.Forall₂ (fun piece blob => Zstd.bulkCompress piece level = .ok blob)
    (piece :: pieces) (blob :: blobs)) : Zstd.decodeAll (blob :: blobs).flatten =
      .ok (piece :: pieces).flatten := by
  induction pieces generalizing piece blob blobs with
  | nil =>
    obtain ⟨head, tail⟩ := List.forall₂_cons.mp framed
    obtain rfl := List.forall₂_nil_left_iff.mp tail
    simpa using StreamingZstd.decodeAll_last head
  | cons next pieces ih =>
    obtain ⟨head, tail⟩ := List.forall₂_cons.mp framed
    obtain ⟨frame, blobs, _, _, rfl⟩ := List.forall₂_cons_left_iff.mp tail
    exact StreamingZstd.decodeAll_frame head (flatten_ne_nil tail) (ih tail)

theorem decoder_flatten (framed : List.Forall₂ (fun piece blob => Zstd.bulkCompress piece level = .ok blob)
    (piece :: pieces) (blob :: blobs)) : Zstd.decoder (blob :: blobs).flatten =
      .ok ((piece :: pieces).flatten, none) := by
  induction pieces generalizing piece blob blobs with
  | nil =>
    obtain ⟨head, tail⟩ := List.forall₂_cons.mp framed
    obtain rfl := List.forall₂_nil_left_iff.mp tail
    simpa using StreamingZstd.decoder_last head
  | cons next pieces ih =>
    obtain ⟨head, tail⟩ := List.forall₂_cons.mp framed
    obtain ⟨frame, blobs, _, _, rfl⟩ := List.forall₂_cons_left_iff.mp tail
    exact StreamingZstd.decoder_frame head (flatten_ne_nil tail) (ih tail)

omit [StreamingZstd] in
/-- What is compressed, be it nothing, is a first frame and maybe others. -/
theorem compress_first {data packed : Bytes} (compressed : compress data (.zstd level) = .ok packed) :
    ∃ piece pieces blob blobs, List.Forall₂ (fun piece blob => Zstd.bulkCompress piece level = .ok blob)
      (piece :: pieces) (blob :: blobs) ∧ (blob :: blobs).flatten = packed ∧
        (piece :: pieces).flatten = data := by
  obtain ⟨pieces, blobs, framed, rfl, rfl⟩ := compress_frames compressed
  cases framed with
  | nil =>
    -- nothing at all is short enough to be one frame
    have frame : Zstd.bulkCompress [] level = .ok [] := by simpa [compress] using compressed
    exact absurd rfl (LawfulZstd.frame_ne_nil frame)
  | cons head tail => exact ⟨_, _, _, _, .cons head tail, rfl, rfl⟩

/-- The start of what was compressed is read back, without the rest. -/
theorem decompressPrefix_begins {algo : CompressionAlgo} {data packed : Bytes} {maxBytes : Nat}
    (compressed : compress data algo = .ok packed) : decompressPrefix packed algo maxBytes =
      .ok (data.take maxBytes) := by
  cases algo with
  | none =>
    obtain rfl : data = packed := Except.ok.inj compressed
    rfl
  | zstd level =>
    obtain ⟨piece, pieces, blob, blobs, framed, rfl, rfl⟩ := compress_first compressed
    simp only [decompressPrefix, decoder_flatten framed]
    rfl

omit [LawfulZstd] [StreamingZstd] in
/-- Where zstd compresses every piece, compression returns. -/
theorem compress_returns {algo : CompressionAlgo} (data : Bytes)
    (frames : ∀ level, algo = .zstd level → ∀ piece, ∃ frame, Zstd.bulkCompress piece level = .ok frame) :
    ∃ packed, compress data algo = .ok packed := by
  cases algo with
  | none => exact ⟨data, rfl⟩
  | zstd level =>
    have each := frames level rfl
    simp only [compress]
    split
    · obtain ⟨frame, made⟩ := each data
      exact ⟨frame, by rw [made]; rfl⟩
    · have framed : ∃ blobs, List.Forall₂ (fun piece blob => Zstd.bulkCompress piece level = .ok blob)
          (chunks parallelChunk data) blobs := exists_results fun piece _ => each piece
      obtain ⟨blobs, framed⟩ := framed
      refine ⟨blobs.flatten, ?_⟩
      simp only [bind_eq_ok, pure_eq_ok, mapM_eq_ok, mapError_eq_ok]
      exact ⟨blobs, framed, rfl⟩

end

/-- Compressed data of any length is read back whole: frame by frame, which is what the
decompression does with it, or sequentially; and any start of it is read back as that,
however the decoder portions its reads. -/
theorem compressed_reads [LawfulZstd] [StreamingZstd] (data : Bytes) (algo : CompressionAlgo) :
    ((∀ level, algo = .zstd level → ∀ piece, ∃ frame, Zstd.bulkCompress piece level = .ok frame) →
      ∃ packed, compress data algo = .ok packed) ∧
    ∀ packed, compress data algo = .ok packed → decompress packed algo = .ok data ∧
      (∀ level, algo = .zstd level → Zstd.decodeAll packed = .ok data ∧
        ∃ layout, frameLayout packed = some layout ∧
          List.flatten <$> layout.mapM (decodeFrame packed) = .ok data) ∧
      ∀ portion maxBytes, ∃ start, readPrefix portion packed algo maxBytes = .ok start ∧ start <+: data ∧
        start.length = min maxBytes data.length := by
  refine ⟨compress_returns data, fun packed compressed => ⟨decompress_compress compressed, ?_, ?_⟩⟩
  · rintro level rfl
    obtain ⟨piece, pieces, blob, blobs, framed, rfl, rfl⟩ := compress_first compressed
    exact ⟨decodeAll_flatten framed, frameLayout_flatten framed⟩
  · intro portion maxBytes
    exact ⟨data.take maxBytes, readPrefix_eq.trans (decompressPrefix_begins compressed), List.take_prefix _ _,
      List.length_take⟩

end Compression

namespace Linked

/-- Raw frames one after another, at least one: what they hold, up to one that is not
all there. -/
def rawStream : Nat → Bytes → Bytes × Option String
  | 0, _ => ([], some "incomplete frame")
  | fuel + 1, bytes =>
    match contentSize bytes with
    | none => ([], some "incomplete frame")
    | some n =>
      if bytes.length < 9 + n then ([], some "incomplete frame")
      else if bytes.length = 9 + n then (bytes.drop 9, none)
      else
        let more := rawStream fuel (bytes.drop (9 + n))
        ((bytes.drop 9).take n ++ more.1, more.2)

/-- The same zstd, with decoders that go through several frames. -/
abbrev streams : Zstd :=
  { zstd with
    decodeAll bytes :=
      match rawStream bytes.length bytes with
      | (data, none) => .ok data
      | (_, some e) => .error e
    decoder bytes := .ok (rawStream bytes.length bytes) }

theorem streams_lawful : @LawfulZstd streams := by
  let _ := streams
  have lawful := zstd_lawful
  constructor
  · exact fun {data frame level} packed => @LawfulZstd.frame_ne_nil zstd lawful data frame level packed
  · exact fun {data frame level} rest packed =>
      @LawfulZstd.frame_size zstd lawful data frame level rest packed
  · exact fun {data frame level} packed => @LawfulZstd.frame_content zstd lawful data frame level packed
  · exact fun {data frame level} packed => @LawfulZstd.frame_decode zstd lawful data frame level packed

theorem rawStream_fuel {bytes : Bytes} {m n : Nat} (one : bytes.length ≤ m) (two : bytes.length ≤ n) :
    rawStream m bytes = rawStream n bytes := by
  induction m generalizing n bytes with
  | zero =>
    obtain rfl := List.eq_nil_of_length_eq_zero (Nat.le_zero.mp one)
    cases n <;> rfl
  | succ m ih =>
    cases n with
    | zero =>
      obtain rfl := List.eq_nil_of_length_eq_zero (Nat.le_zero.mp two)
      rfl
    | succ n =>
      simp only [rawStream]
      split
      · rfl
      · rename_i k _
        rw [@ih (bytes.drop (9 + k)) n (by simp; omega) (by simp; omega)]

/-- A frame is read for what it holds, and what follows it after that. -/
theorem rawStream_frame {data rest : Bytes} (small : data.length < 256) :
    rawStream (rawFrame data ++ rest).length (rawFrame data ++ rest) =
      if rest = [] then (data, none)
      else (data ++ (rawStream rest.length rest).1, (rawStream rest.length rest).2) := by
  have size := contentSize_rawFrame rest small
  have length : (rawFrame data).length = 9 + data.length := by
    rw [rawFrame, List.length_append]
    rfl
  have behind : (rawFrame data ++ rest).drop 9 = data ++ rest := by
    rw [rawFrame, List.append_assoc, List.drop_left' (by simp [frameHeader])]
  have tail : (rawFrame data ++ rest).drop (9 + data.length) = rest := by
    rw [← length, List.drop_left]
  have enough : (rawFrame data ++ rest).length = 9 + data.length + rest.length := by
    rw [List.length_append, length]
  generalize rawFrame data ++ rest = whole at *
  obtain ⟨fuel, fueled⟩ : ∃ fuel, whole.length = fuel + 1 := ⟨whole.length - 1, by omega⟩
  have more := @rawStream_fuel rest fuel rest.length (by omega) (Nat.le_refl _)
  rw [fueled, rawStream, size]
  simp only [behind, tail, more, List.take_left]
  rw [if_neg (by omega)]
  by_cases last : rest = []
  · rw [if_pos (by simp [enough, last]), if_pos last, last, List.append_nil]
  · have longer := List.length_pos_iff.mpr last
    rw [if_neg (by omega), if_neg last]

theorem streams_streaming : @StreamingZstd streams := by
  let _ := streams
  have last : ∀ data frame level, zstd.bulkCompress data level = .ok frame →
      rawStream frame.length frame = (data, none) := by
    intro data frame level packed
    obtain ⟨small, rfl⟩ := bulkCompress_eq_ok packed
    have stream := @rawStream_frame data [] small
    rwa [List.append_nil, if_pos rfl] at stream
  have more : ∀ data frame rest level, zstd.bulkCompress data level = .ok frame → rest ≠ [] →
      rawStream (frame ++ rest).length (frame ++ rest) =
        (data ++ (rawStream rest.length rest).1, (rawStream rest.length rest).2) := by
    intro data frame rest level packed nonempty
    obtain ⟨small, rfl⟩ := bulkCompress_eq_ok packed
    rw [rawStream_frame small, if_neg nonempty]
  have all : ∀ bytes, Zstd.decodeAll bytes = match rawStream bytes.length bytes with
      | (data, none) => .ok data
      | (_, some e) => .error e := fun _ => rfl
  constructor
  · intro data frame level packed
    rw [all, last data frame level packed]
  · intro data frame rest more' level packed nonempty decoded
    rw [all, more data frame rest level packed nonempty]
    rw [all] at decoded
    cases after : rawStream rest.length rest with
    | mk decoded' stopped =>
      rw [after] at decoded
      cases stopped with
      | none =>
        obtain rfl : decoded' = more' := Except.ok.inj decoded
        rfl
      | some e => contradiction
  · intro data frame level packed
    exact congrArg Except.ok (last data frame level packed)
  · intro data frame rest more' level packed nonempty decoded
    have after : rawStream rest.length rest = (more', none) := Except.ok.inj decoded
    have stream := more data frame rest level packed nonempty
    rw [after] at stream
    exact congrArg Except.ok stream

end Linked

namespace Compression

/-- Three bytes, and the first two of them. -/
theorem compressed_reads_three :
    let _ := Linked.streams
    ∃ packed, compress [1, 2, 3] (.zstd 3) = .ok packed ∧ decompress packed (.zstd 3) = .ok [1, 2, 3] ∧
      Zstd.decodeAll packed = .ok [1, 2, 3] ∧ ∃ start, readPrefix (fun _ _ => 1) packed (.zstd 3)
        2 = .ok start ∧ start <+: [1, 2, 3] ∧
        start.length = min 2 3 := by
  intro streams
  have lawful := Linked.streams_lawful
  have streaming := Linked.streams_streaming
  have made : compress [1, 2, 3] (.zstd 3) = .ok (Linked.rawFrame [1, 2, 3]) := by decide +kernel
  have reads := (compressed_reads [1, 2, 3] (.zstd 3)).2 _ made
  exact ⟨_, made, reads.1, (reads.2.1 3 rfl).1, reads.2.2 (fun _ _ => 1) 2⟩

end Compression
end Moonclip
