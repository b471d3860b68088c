import Moonclip.Saving
import Moonclip.Merger
import Moonclip.Linked
import Moonclip.Library.Buffers

/-! The byte-plane transpose and the XOR scan as the source runs them, piece by piece over
an output of zeros, and a delta read back from what was stored. A loop that answers nothing
would have indexed out of range. -/
namespace Moonclip
open Library.Blocks Library.Files Library.Outcome

namespace Pieces

/-- Elements per block when scattering planes back. -/
def unshuffleBlock : Nat := 8192

/-- Piece size of the XOR and comparison scans. -/
def scanChunk : Nat := 1048576

/-- Group `data` into `itemsize` byte planes, a thread to a plane. -/
def shuffle (data : Bytes) (itemsize : Nat) : Option Bytes :=
  if itemsize ≤ 1 then some data
  else
    let count := data.length / itemsize
    if count = 0 then some data
    else do
      let n := count * itemsize
      let zeros := List.replicate n 0
      let planes ← fillChunks count (List.range (chunks count zeros).length)
        (fun plane dst => writeRow 0 (fun i => data[i * itemsize + plane]?) dst.length dst) zeros
      return planes ++ data.drop n

/-- Inverse of `shuffle`, a thread to a block of elements. -/
def unshuffle (data : Bytes) (itemsize : Nat) : Option Bytes :=
  if itemsize ≤ 1 then some data
  else
    let count := data.length / itemsize
    if count = 0 then some data
    else do
      let n := count * itemsize
      let zeros := List.replicate n 0
      let size := itemsize * unshuffleBlock
      let elements ← fillChunks size (List.range (chunks size zeros).length)
        (fun block dst =>
          let first := block * unshuffleBlock
          writeRows (dst.length / itemsize) itemsize
            (fun i plane => data[plane * count + first + i]?) dst) zeros
      return elements ++ data.drop n

/-- XOR two equal-length buffers; the source asserts that they are. -/
def xorBytes (base target : Bytes) : Option Bytes :=
  if base.length = target.length then
    fillChunks scanChunk ((chunks scanChunk base).zip (chunks scanChunk target))
      (fun piece o => writeRow 0 (fun i => do return (← piece.1[i]?) ^^^ (← piece.2[i]?)) o.length o)
      (List.replicate base.length 0)
  else none

/-- Whether two buffers are byte-identical. -/
def buffersEqual (base target : Bytes) : Bool :=
  base.length == target.length &&
    !((chunks scanChunk base).zip (chunks scanChunk target)).any fun piece => piece.1 != piece.2

def computeDelta (base target : Bytes) : Option (Option Bytes) :=
  if base.length ≠ target.length then some none
  else if base.length < Delta.deltaMinSize then some none
  else if buffersEqual base target then some none
  else some <$> xorBytes base target

def applyDelta (base delta : Bytes) : Option (Except MoonclipError Bytes) :=
  if base.length ≠ delta.length then
    some (.error (.delta ("base length " ++ toString base.length ++ " != delta length " ++
      toString delta.length)))
  else .ok <$> xorBytes base delta

/-- A delta taken, stored with or without the transpose, and applied; `none` within if there
was none to take. -/
def recovered (base target : Bytes) (itemsize : Nat) (shuffled : Bool) :
    Option (Option (Except MoonclipError Bytes)) := do
  match ← computeDelta base target with
  | none => return none
  | some delta =>
    let payload ← if shuffled then shuffle delta itemsize else some delta
    let back ← if shuffled then unshuffle payload itemsize else some payload
    return some (← applyDelta base back)

variable {data base target delta : Bytes} {itemsize : Nat}

theorem unshuffleBlock_pos : 0 < unshuffleBlock := by decide

theorem scanChunk_pos : 0 < scanChunk := by decide

theorem shuffle_eq : shuffle data itemsize = some (Shuffle.shuffle data itemsize) := by
  unfold shuffle Shuffle.shuffle
  split
  · rfl
  · rename_i wide
    extract_lets count n zeros
    split
    · rfl
    · rename_i some_
      have whole : count * itemsize ≤ data.length := Nat.div_mul_le_self data.length itemsize
      have planes : fillChunks (1 * count) (List.range (chunks count zeros).length)
          (fun plane dst => writeRow 0 (fun i => data[i * itemsize + plane]?) dst.length dst) zeros =
            some (grid itemsize count fun plane i => data.getD (i * itemsize + plane) 0) := by
        apply fillChunks_grid (Nat.pos_of_ne_zero some_) Nat.one_pos
        · simp [zeros, n, Nat.mul_comm]
        · have pieces := @count_chunks itemsize count 1 (Nat.pos_of_ne_zero some_) Nat.one_pos
          rw [Nat.one_mul, Nat.mul_comm itemsize] at pieces
          simp only [List.length_range, length_chunks, zeros, n, List.length_replicate, pieces]
        · intro plane source dst here size
          obtain ⟨small, rfl⟩ : plane < (chunks count zeros).length ∧ plane = source := by
            simpa [List.getElem?_eq_some_iff] using here
          rw [Nat.mul_one] at size ⊢
          have within : plane < itemsize := by
            have pieces := @count_chunks itemsize count 1 (Nat.pos_of_ne_zero some_) Nat.one_pos
            rw [Nat.one_mul, Nat.mul_comm itemsize] at pieces
            simp only [length_chunks, zeros, n, List.length_replicate, pieces] at small
            omega
          have one : min 1 (itemsize - plane) = 1 := by omega
          rw [one, Nat.one_mul] at size
          rw [one, writeRow_eq (f := fun i => data.getD (i * itemsize + plane) 0)]
          · simp [grid, size]
          · intro i less
            have next : (i + 1) * itemsize ≤ count * itemsize := Nat.mul_le_mul_right _ (by omega)
            rw [Nat.succ_mul] at next
            have there : i * itemsize + plane < data.length := by omega
            simp [List.getElem?_eq_getElem there]
          · omega
      rw [Nat.one_mul] at planes
      simp only [planes, bind, Option.bind, pure]
      rfl

theorem unshuffle_eq : unshuffle data itemsize = some (Shuffle.unshuffle data itemsize) := by
  unfold unshuffle Shuffle.unshuffle
  split
  · rfl
  · rename_i wide
    extract_lets count n zeros size
    split
    · rfl
    · rename_i some_
      have positive : 0 < itemsize := by omega
      have whole : count * itemsize ≤ data.length := Nat.div_mul_le_self data.length itemsize
      have elements : fillChunks (unshuffleBlock * itemsize) (List.range (chunks size zeros).length)
          (fun block dst => writeRows (dst.length / itemsize) itemsize
            (fun i plane => data[plane * count + block * unshuffleBlock + i]?) dst) zeros =
            some (grid count itemsize fun i plane => data.getD (plane * count + i) 0) := by
        apply fillChunks_grid positive unshuffleBlock_pos
        · simp [zeros, n]
        · simp only [List.length_range, length_chunks, zeros, n, size, List.length_replicate,
            Nat.mul_comm itemsize unshuffleBlock]
          exact count_chunks positive unshuffleBlock_pos
        · intro block source dst here length
          obtain ⟨-, rfl⟩ : block < (chunks size zeros).length ∧ block = source := by
            simpa [List.getElem?_eq_some_iff] using here
          have rows : dst.length / itemsize = min unshuffleBlock (count - block * unshuffleBlock) := by
            rw [length, Nat.mul_div_cancel _ positive]
          rw [rows, writeRows_eq
            (f := fun i plane => data.getD (plane * count + (block * unshuffleBlock + i)) 0)]
          · rw [← length, List.drop_length, List.append_nil]
          · intro i row plane column
            have next : (plane + 1) * count ≤ itemsize * count := Nat.mul_le_mul_right _ column
            rw [Nat.succ_mul, Nat.mul_comm itemsize] at next
            have there : plane * count + (block * unshuffleBlock + i) < data.length := by omega
            rw [Nat.add_assoc]
            simp [List.getElem?_eq_getElem there]
          · omega
      rw [Nat.mul_comm] at elements
      simp only [size, elements, bind, Option.bind, pure]
      rfl

theorem getElem?_piece {k b i : Nat} {xs : Bytes} (small : i < min k (xs.length - b * k)) :
    ((xs.drop (b * k)).take k)[i]? = xs[b * k + i]? := by
  rw [List.getElem?_take_of_lt (by omega), List.getElem?_drop]

theorem xorBytes_grid (same : base.length = target.length) : Delta.xorBytes base target =
    grid base.length 1 fun i _ => base.getD i 0 ^^^ target.getD i 0 := by
  symm
  apply eq_grid
  · simp [Delta.xorBytes, same]
  · intro i row j column
    obtain rfl : j = 0 := by omega
    have there : i < target.length := by omega
    simp [Delta.xorBytes, List.getElem?_zipWith, List.getElem?_eq_getElem row, List.getElem?_eq_getElem there]

/-- The scan, whatever the size of a piece. -/
theorem fillChunks_xor {size : Nat} (positive : 0 < size) (same : base.length = target.length) :
    fillChunks size ((chunks size base).zip (chunks size target))
      (fun piece o => writeRow 0 (fun i => do return (← piece.1[i]?) ^^^ (← piece.2[i]?)) o.length o)
      (List.replicate base.length 0) = some (Delta.xorBytes base target) := by
  have scanned := @fillChunks_grid _ _ base.length 1 size ((chunks size base).zip (chunks size target))
    (fun piece o => writeRow 0 (fun i => do return (← piece.1[i]?) ^^^ (← piece.2[i]?)) o.length o)
    (fun i _ => base.getD i 0 ^^^ target.getD i 0) (List.replicate base.length 0) Nat.one_pos positive
    (by simp) (by simp [length_chunks, same])
  rw [Nat.mul_one] at scanned
  rw [xorBytes_grid same]
  apply scanned
  intro b piece o here length
  obtain ⟨first, second⟩ := List.getElem?_zip_eq_some.mp here
  rw [Nat.mul_one] at length
  rw [writeRow_eq (f := fun i => base.getD (b * size + i) 0 ^^^ target.getD (b * size + i) 0)]
  · simp [grid_column, length]
  · intro i small
    have inBase : b * size + i < base.length := by omega
    have inTarget : b * size + i < target.length := by omega
    rw [← getElem?_chunks first, ← getElem?_chunks second, getElem?_piece (by omega),
      getElem?_piece (by omega)]
    simp [List.getElem?_eq_getElem inBase, List.getElem?_eq_getElem inTarget]
  · omega

theorem xorBytes_eq (same : base.length = target.length) :
    xorBytes base target = some (Delta.xorBytes base target) := by
  rw [xorBytes, if_pos same]
  exact fillChunks_xor scanChunk_pos same

theorem any_differ_iff {xs ys : List Bytes} (same : xs.length = ys.length) :
    ((xs.zip ys).any fun piece => piece.1 != piece.2) = false ↔ xs = ys := by
  induction xs generalizing ys with
  | nil => simpa using (List.eq_nil_of_length_eq_zero same.symm).symm
  | cons x xs ih =>
    cases ys with
    | nil => simp at same
    | cons y ys =>
      have rest := @ih ys (by simpa using same)
      rw [List.zip_cons_cons, List.any_cons, Bool.or_eq_false_iff, rest, List.cons.injEq]
      simp

theorem buffersEqual_eq : buffersEqual base target = decide (base = target) := by
  by_cases same : base.length = target.length
  · have pieces : (chunks scanChunk base).length = (chunks scanChunk target).length := by
      rw [length_chunks, length_chunks, same]
    have cut : chunks scanChunk base = chunks scanChunk target ↔ base = target := by
      constructor
      · intro equal
        rw [← flatten_chunks scanChunk_pos base, equal, flatten_chunks scanChunk_pos]
      · intro equal
        rw [equal]
    rw [Bool.eq_iff_iff, decide_eq_true_eq, ← cut, ← any_differ_iff pieces]
    simp [buffersEqual, same]
  · have differ : base ≠ target := fun equal => same (congrArg List.length equal)
    simp [buffersEqual, same, differ]

theorem computeDelta_eq : computeDelta base target = some (Delta.computeDelta base target) := by
  unfold computeDelta Delta.computeDelta
  split
  · rfl
  · rename_i same
    split
    · rfl
    · rw [buffersEqual_eq]
      by_cases equal : base = target
      · simp [equal]
      · simp [equal, xorBytes_eq (not_not.mp same)]

theorem applyDelta_eq : applyDelta base delta = some (Delta.applyDelta base delta) := by
  unfold applyDelta Delta.applyDelta
  split
  · rfl
  · rename_i same
    rw [xorBytes_eq (not_not.mp same)]
    rfl

theorem unshuffle_of_shuffle {planes : Bytes} (grouped : shuffle data itemsize = some planes) :
    unshuffle planes itemsize = some data := by
  rw [shuffle_eq, Option.some.injEq] at grouped
  rw [unshuffle_eq, ← grouped, Shuffle.unshuffle_shuffle]

theorem recovered_eq {shuffled : Bool} : recovered base target itemsize shuffled =
    some ((Delta.computeDelta base target).map fun _ => .ok target) := by
  cases taken : Delta.computeDelta base target with
  | none => simp [recovered, computeDelta_eq, taken]
  | some delta =>
    have applied := Delta.applyDelta_computeDelta taken
    cases shuffled with
    | false => simp [recovered, computeDelta_eq, taken, applyDelta_eq, applied]
    | true =>
      simp [recovered, computeDelta_eq, taken, shuffle_eq, unshuffle_eq, Shuffle.unshuffle_shuffle,
        applyDelta_eq, applied]

/-- Two buffers of one length have a delta unless they are short or the same. -/
theorem computeDelta_isSome (same : base.length = target.length) :
    (Delta.computeDelta base target).isSome ↔ Delta.deltaMinSize ≤ base.length ∧ base ≠ target := by
  by_cases short : base.length < Delta.deltaMinSize
  · simp [Delta.computeDelta, same, same ▸ short]
  · by_cases equal : base = target
    · simp [Delta.computeDelta, equal]
    · simp [Delta.computeDelta, same, same ▸ short, equal]
      omega

end Pieces

namespace Tensor
variable [Zstd] {files : Files} {entry : TensorEntry} {w : Working} {algo : CompressionAlgo}

/-- The delta a stored payload unpacks to is the one that was computed: its entry says
whether it was shuffled, and has the element size it was shuffled by. -/
theorem loadXor_packed [LawfulZstd] {diff blob : Bytes} {pack : PackSource}
    (packed : Compression.compress (if Shuffle.elementSize w.dtype > 1 then
      Shuffle.shuffle diff (Shuffle.elementSize w.dtype) else diff) algo = .ok blob)
    (dtype : entry.dtype = w.dtype)
    (shuffled : entry.shuffled = decide (Shuffle.elementSize w.dtype > 1))
    (extracted : extractCompressed files entry pack = .ok blob) :
    loadXor files entry algo pack = .ok diff := by
  have unpacked := Compression.decompress_compress packed
  by_cases wide : Shuffle.elementSize w.dtype > 1
  · simp [loadXor, extracted, unpacked, bind, Except.bind, pure, Except.pure, shuffled, dtype, wide,
      Shuffle.unshuffle_shuffle]
  · simp [loadXor, extracted, unpacked, bind, Except.bind, pure, Except.pure, shuffled, wide]

end Tensor

section
variable [Zstd]

/-- The merger unpacks a delta as a load does. -/
theorem Merger.currentData_packed [LawfulZstd] {files : Files} {base source : Snapshot} {rank : Nat}
    {algo : CompressionAlgo} {entry : TensorEntry} {w : Tensor.Working} {baseRaw diff blob : Bytes}
    (packed : Compression.compress (if Shuffle.elementSize w.dtype > 1 then
      Shuffle.shuffle diff (Shuffle.elementSize w.dtype) else diff) algo = .ok blob)
    (dtype : entry.dtype = w.dtype)
    (shuffled : entry.shuffled = decide (Shuffle.elementSize w.dtype > 1))
    (delta : entry.storage = .deltaXor)
    (loaded : loadCompressedData files source rank entry = .ok blob)
    (there : baseTensorData files base rank algo entry.name = .ok baseRaw) :
    currentData files base source rank algo entry = Delta.applyDelta baseRaw diff := by
  have unpacked := Compression.decompress_compress packed
  by_cases wide : Shuffle.elementSize w.dtype > 1
  · simp [currentData, delta, loaded, there, unpacked, bind, Except.bind, shuffled, dtype, wide,
      Shuffle.unshuffle_shuffle]
  · simp [currentData, delta, loaded, there, unpacked, bind, Except.bind, shuffled, wide]

omit [Zstd] in
theorem Merger.loadCompressedData_whole {files : Files} {snap : Snapshot} {rank : Nat} {entry : TensorEntry}
    {r : RankEntry} {p : Path} {body : Bytes} (held : snap.ranks[rank]? = some r) (pack : r.packFile = some p)
    (found : files.find? p = some body) (own : entry.filename = none) (offset : entry.offset = 0)
    (size : entry.compressedSize = body.length) : loadCompressedData files snap rank entry = .ok body := by
  simp [loadCompressedData, own, held, pack, Storage.getRange, Storage.get, found, offset, size,
    bind, Except.bind,
    pure, Except.pure]

end

/-- The transpose is undone at every length and element size, and a delta gives the target
back: through the transpose or not, and as a load and the merger read what a save stored. -/
theorem delta_shuffle_inverts [Zstd] [LawfulZstd] [Xxh3] :
    (∀ (data : Bytes) itemsize, ∃ planes, Pieces.shuffle data itemsize = some planes ∧
      planes.length = data.length ∧ Pieces.unshuffle planes itemsize = some data) ∧
    (∀ (base target : Bytes) itemsize shuffled, base.length = target.length →
      Pieces.recovered base target itemsize shuffled =
        some (if Delta.deltaMinSize ≤ base.length ∧ base ≠ target then some (.ok target) else none)) ∧
    ∀ files (cache : BaseCache) e t (w : Tensor.Working) algo maxRatio pt,
      Tensor.tryDelta files cache e t w algo maxRatio = .ok (some pt) →
      ∃ baseRaw blob, cache.baseBytes files e = .ok (some baseRaw) ∧ pt.writeData = some blob ∧
        ∀ stored entry, entry.dtype = pt.entry.dtype → entry.shuffled = pt.entry.shuffled →
          (∀ pack, Tensor.extractCompressed stored entry pack = .ok blob →
            ∃ delta, Tensor.loadXor stored entry algo pack = .ok delta ∧
              Pieces.applyDelta baseRaw delta = some (.ok w.data)) ∧
          ∀ base source rank, entry.storage = .deltaXor →
            Merger.loadCompressedData stored source rank entry = .ok blob →
            Merger.baseTensorData stored base rank algo entry.name = .ok baseRaw →
            Merger.currentData stored base source rank algo entry = .ok w.data := by
  refine ⟨fun data itemsize => ?_, fun base target itemsize shuffled same => ?_, ?_⟩
  · exact ⟨_, Pieces.shuffle_eq, Shuffle.length_shuffle, Pieces.unshuffle_of_shuffle Pieces.shuffle_eq⟩
  · have taken := Pieces.computeDelta_isSome same
    rw [Pieces.recovered_eq]
    cases delta : Delta.computeDelta base target with
    | none =>
      rw [delta] at taken
      rw [if_neg (fun worth => by simpa using taken.mpr worth)]
      rfl
    | some diff =>
      rw [delta] at taken
      rw [if_pos (taken.mp rfl)]
      rfl
  · intro files cache e t w algo maxRatio pt tried
    obtain ⟨baseRaw, diff, blob, found, differ, packed, rfl⟩ := Tensor.tryDelta_packed tried
    have applied := Delta.applyDelta_computeDelta differ
    refine ⟨baseRaw, blob, found, rfl, fun stored entry dtype shuffled => ⟨fun pack extracted => ?_, ?_⟩⟩
    · exact ⟨diff, Tensor.loadXor_packed packed dtype shuffled extracted, by
        rw [Pieces.applyDelta_eq, applied]⟩
    · intro base source rank delta loaded there
      rw [Merger.currentData_packed packed dtype shuffled delta loaded there, applied]

namespace Nudged

/-- A tensor one byte of which changed, before and after. -/
def before : Bytes := List.replicate 4096 1
def after : Bytes := before.set 0 2

def tensor : TensorData := ⟨"w", [1024], "float32", after⟩
def working : Tensor.Working := ⟨after, "float32", none, none⟩

def full : TensorEntry where
  name := "w"
  shape := [1024]
  dtype := "float32"
  originalDtype := none
  quantScale := none
  storage := .full
  aliasOf := none
  filename := none
  offset := 0
  compressedSize := 4096
  rawSize := 4096
  hashRaw := ""
  hashCompressed := none
  shuffled := false

def delta : TensorEntry := { full with storage := .deltaXor, shuffled := true }

def cache : BaseCache := ⟨none, ∅, .none, some (.ofList [("w", before)])⟩

def payload : Bytes := Shuffle.shuffle (Delta.xorBytes before after) 4

def snapshot (id : Uuid) (e : TensorEntry) : Snapshot :=
  ⟨id, 0, 0, (∅ : RankMap).insert 0 ⟨0, [e], some (packPath id 0), 4096, 4096, 0, 0, 1⟩, none, ∅, .none, true,
    false⟩

def files : Files := (FileStore.empty.put (packPath 1 0) before).put (packPath 2 0) payload

theorem length_before : before.length = 4096 := List.length_replicate

theorem length_after : after.length = 4096 := List.length_set.trans length_before

theorem changed : before ≠ after := by
  intro same
  have first : before[0]? = some 1 := by
    rw [before, List.getElem?_replicate]
    rfl
  have now : after[0]? = some 2 := List.getElem?_set_self (by rw [length_before]; decide)
  rw [← same, first] at now
  simp at now

theorem length_payload : payload.length = 4096 := by
  rw [payload, Shuffle.length_shuffle, Delta.xorBytes, List.length_zipWith, length_before, length_after]
  rfl

theorem differ : Delta.computeDelta before after = some (Delta.xorBytes before after) := by
  simp [Delta.computeDelta, length_before, length_after, Delta.deltaMinSize, changed]

theorem offset_delta : delta.offset = 0 := rfl

theorem size_delta : delta.compressedSize = payload.length := length_payload.symm

theorem rank_snapshot {id : Uuid} {e : TensorEntry} : (snapshot id e).ranks[0]? =
    some ⟨0, [e], some (packPath id 0), 4096, 4096, 0, 0, 1⟩ :=
  Std.ExtTreeMap.getElem?_insert_self

theorem find_full : files.find? (packPath 1 0) = some before := by
  have other : packPath 1 0 ≠ packPath 2 0 := by decide
  rw [files, FileStore.find?_put_of_ne other, FileStore.find?_put_self]

theorem find_delta : files.find? (packPath 2 0) = some payload := FileStore.find?_put_self

variable [Zstd] {kept : BaseCache} {e : TensorEntry} {left : Files} {maxRatio : Float}

theorem held (raw : kept.raw = some (.ofList [("w", before)])) (whole : e.storage = .full)
    (named : e.name = "w") :
    kept.baseBytes left e = .ok (some before) := by
  have there : (kept.raw.bind fun raw => raw["w"]?) = some before := by simp [raw]
  simp [BaseCache.baseBytes, whole, named, there]

/-- Against a full whose bytes are kept in memory, the change is stored as a delta. -/
theorem saved [Xxh3] (raw : kept.raw = some (.ofList [("w", before)])) (whole : e.storage = .full)
    (named : e.name = "w") (size : e.rawSize = 4096) :
    Tensor.tryDelta left kept e tensor working .none maxRatio =
      .ok (some (Tensor.stored tensor working .deltaXor true (some payload))) := by
  have width : Shuffle.elementSize "float32" = 4 := by decide
  have worth : Delta.paysOff before after .none maxRatio 4 = true := by
    simp [Delta.paysOff, length_before, length_after, Delta.decisionSample, Delta.decisionMin]
  have known : kept.hasRaw tensor.name = true := by simp [BaseCache.hasRaw, raw, tensor]
  simp only [Tensor.tryDelta, known, held raw whole named, if_true, bind, Except.bind]
  simp [whole, size, working, length_after, Delta.deltaMinSize, width, worth, differ,
    Compression.compress, payload,
    pure, Except.pure]

end Nudged

/-- One byte changed: the delta is transposed, packed as it is, and read back both ways. -/
theorem delta_shuffle_inverts_nudged :
    let _ := Linked.zstd
    let _ := Linked.xxh3
    Pieces.recovered Nudged.before Nudged.after 4 true = some (some (.ok Nudged.after)) ∧
    (∃ delta, Tensor.loadXor Nudged.files Nudged.delta .none (.whole Nudged.payload) = .ok delta ∧
      Pieces.applyDelta Nudged.before delta = some (.ok Nudged.after)) ∧
    Merger.currentData Nudged.files (Nudged.snapshot 1 Nudged.full) (Nudged.snapshot 2 Nudged.delta) 0
      .none Nudged.delta = .ok Nudged.after := by
  intro zstd xxh3
  have := Linked.zstd_lawful
  obtain ⟨-, inverts, stored⟩ := delta_shuffle_inverts
  obtain ⟨baseRaw, blob, held, packed, reads⟩ :=
    stored Nudged.files Nudged.cache Nudged.full _ _ _ 1 _ (Nudged.saved rfl rfl rfl rfl)
  have kept : Nudged.cache.baseBytes Nudged.files Nudged.full = .ok (some Nudged.before) :=
    Nudged.held rfl rfl rfl
  obtain rfl : Nudged.before = baseRaw := by simpa [kept] using held
  obtain rfl : Nudged.payload = blob := by simpa [Tensor.stored] using packed
  obtain ⟨loads, merges⟩ := reads Nudged.files Nudged.delta rfl rfl
  have size := Nudged.length_payload
  refine ⟨?_, loads _ ?_, merges (Nudged.snapshot 1 Nudged.full) (Nudged.snapshot 2 Nudged.delta) 0 rfl ?_ ?_⟩
  · rw [inverts _ _ _ _ (Nudged.length_before.trans Nudged.length_after.symm),
      if_pos ⟨Nat.le_of_eq Nudged.length_before.symm, Nudged.changed⟩]
  · rw [Tensor.extractCompressed_whole (by rw [Nudged.offset_delta, Nudged.size_delta]; omega),
      Nudged.offset_delta, Nudged.size_delta, List.drop_zero, List.take_length]
  · exact Merger.loadCompressedData_whole Nudged.rank_snapshot rfl Nudged.find_delta rfl rfl Nudged.size_delta
  · have loaded : Merger.loadTensorData Nudged.files (Nudged.snapshot 1 Nudged.full) 0 .none Nudged.full =
        .ok Nudged.before := by
      have compressed : Merger.loadCompressedData Nudged.files (Nudged.snapshot 1 Nudged.full) 0 Nudged.full =
          .ok Nudged.before :=
        Merger.loadCompressedData_whole Nudged.rank_snapshot rfl Nudged.find_full rfl rfl
          Nudged.length_before.symm
      simp only [Merger.loadTensorData, compressed, bind, Except.bind, Compression.decompress]
      rfl
    rw [Merger.baseTensorData, Nudged.rank_snapshot]
    exact loaded

end Moonclip
