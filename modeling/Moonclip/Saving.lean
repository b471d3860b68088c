import Moonclip.Archive

/-! What a save writes reads back: the tensor as it was stored, whichever way it
was stored. -/
namespace Moonclip
open Library.Codec Library.Outcome Library.Tables

/-- The ways a save stores one tensor, given its base. -/
inductive Stored [Zstd] [Xxh3] (base : Option Kept) (algo : CompressionAlgo) (t : TensorData)
    (w : Tensor.Working) : ProcessedTensor → Prop where
  | full (packed : Compression.compress w.data algo = .ok blob) :
      Stored base algo t w (Tensor.stored t w .full false (some blob))
  | skipped (from_ : base = some b) (listed : e ∈ b.entry.tensors) (name : e.name = t.name)
      (hash : e.hashRaw = hashHex w.data) :
      Stored base algo t w (Tensor.stored t w .skipped false none)
  | delta (from_ : base = some b) (listed : e ∈ b.entry.tensors) (name : e.name = t.name)
      (own : e.storage = .full)
      (read : rawOf b.snapshot.compression b.pack none e = .ok baseRaw)
      (differ : Delta.computeDelta baseRaw w.data = some diff)
      (packed : Compression.compress
        (if Shuffle.elementSize w.dtype > 1 then Shuffle.shuffle diff (Shuffle.elementSize w.dtype)
          else diff) algo = .ok blob) :
      Stored base algo t w
        (Tensor.stored t w .deltaXor (decide (Shuffle.elementSize w.dtype > 1)) (some blob))

/-- Bytes kept in memory that are those of the tensors of `b` stored in full. -/
def Retains [Zstd] [Xxh3] (b : Kept) (held : TensorMap) : Prop :=
  ∀ (name : String) bytes, held[name]? = some bytes → ∀ e ∈ b.entry.tensors, e.name = name →
    e.storage = .full → rawOf b.snapshot.compression b.pack none e = .ok bytes

/-- A cache that answers for the base `b`. -/
structure CacheOf [Zstd] [Xxh3] (b : Kept) (cache : BaseCache) : Prop where
  packFile : cache.packFile = some b.path
  entries : cache.entries = entriesByName b.entry.tensors
  compression : cache.compression = b.snapshot.compression
  raw : ∀ held, cache.raw = some held → Retains b held

namespace Tensor

theorem extractCompressed_whole {files : Files} {e : TensorEntry} {pack : Bytes}
    (within : e.offset + e.compressedSize ≤ pack.length) :
    extractCompressed files e (.whole pack) = .ok ((pack.drop e.offset).take e.compressedSize) := by
  simp [extractCompressed, within]

/-- Bytes that were read were inside the pack. -/
theorem extractCompressed_eq_ok {files : Files} {e : TensorEntry} {pack blob : Bytes}
    (inPack : e.filename = none) (read : extractCompressed files e (.whole pack) = .ok blob) :
    e.offset + e.compressedSize ≤ pack.length ∧ blob = (pack.drop e.offset).take e.compressedSize := by
  by_cases within : e.offset + e.compressedSize ≤ pack.length
  · rw [extractCompressed_whole within] at read
    exact ⟨within, by simpa using read.symm⟩
  · simp [extractCompressed, within, extractCompressed.fromFile, inPack] at read

variable [Zstd] [Xxh3] {files : Files} {b : Kept} {cache : BaseCache} {t : TensorData}
  {w : Working} {algo : CompressionAlgo} {maxRatio : Float}

theorem rawOf_eq_ok {e : TensorEntry} {pack raw : Bytes}
    {baseRaw : Option (String → Except MoonclipError Bytes)} (full : e.storage = .full)
    (inPack : e.filename = none) (read : rawOf algo pack baseRaw e = .ok raw) :
    e.offset + e.compressedSize ≤ pack.length ∧
      Compression.decompress ((pack.drop e.offset).take e.compressedSize) algo = .ok raw := by
  simp only [rawOf, loadRawWith, full, loadFull, bind_eq_ok] at read
  obtain ⟨blob, extracted, rest⟩ := read
  obtain ⟨within, rfl⟩ := extractCompressed_eq_ok inPack extracted
  refine ⟨within, ?_⟩
  split at rest
  · split at rest
    · simp at rest
    · exact rest
  · exact rest

theorem baseBytes_eq_ok {e : TensorEntry} {bytes : Bytes} (cached : CacheOf b cache)
    (pack : files.find? b.path = some b.pack) (listed : e ∈ b.entry.tensors)
    (inPack : e.filename = none)
    (reads : e.storage = .full → ∃ raw, rawOf b.snapshot.compression b.pack none e = .ok raw)
    (found : cache.baseBytes files e = .ok (some bytes)) :
    e.storage = .full ∧ rawOf b.snapshot.compression b.pack none e = .ok bytes := by
  unfold BaseCache.baseBytes at found
  split at found
  · simp at found
  · rename_i full
    have full : e.storage = .full := by simpa using full
    refine ⟨full, ?_⟩
    cases kept : cache.raw.bind (·[e.name]?) with
    | some held =>
      obtain ⟨raw, same, there⟩ := Option.bind_eq_some_iff.mp kept
      obtain rfl : held = bytes := by simpa [kept] using found
      exact cached.raw raw same e.name held there e listed rfl full
    | none =>
      obtain ⟨raw, read⟩ := reads full
      have decoded := (rawOf_eq_ok full inPack read).2
      have within := (rawOf_eq_ok full inPack read).1
      have whole : ((b.pack.drop e.offset).take e.compressedSize).length = e.compressedSize := by
        simp only [List.length_take, List.length_drop]
        omega
      simp only [kept, BaseCache.readCompressed, cached.packFile, Storage.getRange_within pack within,
        cached.compression, bind, Except.bind, pure, Except.pure, if_pos whole, decoded] at found
      simp only [Functor.map, Except.map, Except.ok.injEq, Option.some.injEq] at found
      rw [read, found]

/-- A base every tensor of which reads, so far as it is stored in full. -/
def Legible (b : Kept) : Prop :=
  ∀ e ∈ b.entry.tensors, e.filename = none ∧
    (e.storage = .full → ∃ raw, rawOf b.snapshot.compression b.pack none e = .ok raw)

/-- What a save that kept a delta had before it: the base's bytes, and the XOR it packed. -/
theorem tryDelta_packed {e : TensorEntry} {pt : ProcessedTensor}
    (tried : tryDelta files cache e t w algo maxRatio = .ok (some pt)) :
    ∃ baseRaw diff blob, cache.baseBytes files e = .ok (some baseRaw) ∧
      Delta.computeDelta baseRaw w.data = some diff ∧
      Compression.compress (if Shuffle.elementSize w.dtype > 1 then
        Shuffle.shuffle diff (Shuffle.elementSize w.dtype) else diff) algo = .ok blob ∧
      pt = stored t w .deltaXor (decide (Shuffle.elementSize w.dtype > 1)) (some blob) := by
  unfold tryDelta at tried
  split at tried
  · extract_lets itemsize sample verdict shuffled at tried
    split at tried
    · simp at tried
    · simp only [bind_eq_ok] at tried
      obtain ⟨bytes, found, rest⟩ := tried
      split at rest
      · simp at rest
      · rename_i baseRaw
        split at rest
        · simp at rest
        · rename_i diff computed
          have differ : Delta.computeDelta baseRaw w.data = some diff := by
            split at computed
            · exact computed
            · simp at computed
          simp only [bind_eq_ok, pure_eq_ok, Option.some.injEq] at rest
          obtain ⟨blob, packed, rfl⟩ := rest
          exact ⟨baseRaw, diff, blob, found, differ, by simpa [shuffled, itemsize] using packed, rfl⟩
  · simp at tried

theorem tryDelta_stored {e : TensorEntry} {pt : ProcessedTensor} (cached : CacheOf b cache)
    (legible : Legible b) (pack : files.find? b.path = some b.pack) (listed : e ∈ b.entry.tensors)
    (name : e.name = t.name)
    (tried : tryDelta files cache e t w algo maxRatio = .ok (some pt)) :
    Stored (some b) algo t w pt := by
  obtain ⟨baseRaw, diff, blob, found, differ, packed, rfl⟩ := tryDelta_packed tried
  obtain ⟨full, read⟩ := baseBytes_eq_ok cached pack listed (legible e listed).1
    (legible e listed).2 found
  exact .delta rfl listed name full read differ packed

theorem makeFullEntry_stored {base : Option Kept} {pt : ProcessedTensor}
    (made : makeFullEntry t w algo = .ok pt) : Stored base algo t w pt := by
  simp only [makeFullEntry, bind_eq_ok, pure_eq_ok] at made
  obtain ⟨blob, packed, rfl⟩ := made
  exact .full packed

/-- Whatever a save decides about a tensor is one of the ways to store it. -/
theorem processTensor_stored {base : Option Kept} {cache : Option BaseCache}
    {policy : DTypePolicy} {pt : ProcessedTensor}
    (cached : ∀ c, cache = some c → ∃ b, base = some b ∧ CacheOf b c ∧ Legible b ∧
      files.find? b.path = some b.pack)
    (processed : processTensor files cache algo maxRatio policy t = .ok pt) :
    ∃ w, workingCopy t policy = .ok w ∧ Stored base algo t w pt := by
  simp only [processTensor, bind_eq_ok] at processed
  obtain ⟨w, copied, rest⟩ := processed
  refine ⟨w, copied, ?_⟩
  split at rest
  · exact makeFullEntry_stored rest
  · rename_i c e looked
    simp only [Option.bind_eq_some_iff, Option.map_eq_some_iff, Prod.mk.injEq] at looked
    obtain ⟨_, isCache, _, found, rfl, rfl⟩ := looked
    obtain ⟨b, rfl, cacheOf, legible, pack⟩ := cached _ isCache
    rw [cacheOf.entries] at found
    have listed := mem_of_entriesByName found
    have name := name_of_entriesByName found
    split at rest
    · rename_i same
      obtain rfl : stored t w .skipped false none = pt := by simpa using rest
      exact .skipped rfl listed name same
    · simp only [bind_eq_ok] at rest
      obtain ⟨tried, attempt, rest⟩ := rest
      split at rest
      · obtain rfl : _ = pt := by simpa using rest
        exact tryDelta_stored cacheOf legible pack listed name attempt
      · exact makeFullEntry_stored rest

end Tensor

namespace Kept
variable [Zstd] [Xxh3] [SerdeJson] {buffers : Set Bytes} {a : Archive} {b : Kept}

/-- A full snapshot that loads: what a delta may be taken against. -/
structure Base (buffers : Set Bytes) (a : Archive) (b : Kept) : Prop
    extends b.Sound buffers a where
  root : b.snapshot.baseSnapshotId = none

theorem Base.alone (base : b.Base buffers a) : b.baseIn a = none := by
  simp [baseIn, base.root]

theorem Base.own (base : b.Base buffers a) {e : TensorEntry} (listed : e ∈ b.entry.tensors)
    (own : e.storage ≠ .aliased) :
    ∃ raw ∈ buffers, rawOf b.snapshot.compression b.pack none e = .ok raw ∧
      e.hashRaw = hashHex raw ∧ e.rawSize = raw.length := by
  obtain ⟨raw, known, _, read, _, hash, size⟩ := base.readable.own e listed own
  rw [base.alone] at read
  exact ⟨raw, known, read, hash, size⟩

theorem Base.legible (base : b.Base buffers a) : Tensor.Legible b := by
  intro e listed
  refine ⟨base.inPack e listed, fun full => ?_⟩
  obtain ⟨raw, _, read, _⟩ := base.own listed (by simp [full])
  exact ⟨raw, read⟩

/-- For every name it has, a base answers with bytes that bear the recorded hash. -/
theorem Base.answers (base : b.Base buffers a) {e : TensorEntry} (listed : e ∈ b.entry.tensors) :
    ∃ raw ∈ buffers, b.baseRaw e.name = .ok raw ∧ e.hashRaw = hashHex raw := by
  obtain ⟨t, holder, hash, _⟩ := base.readable.holders e listed
  obtain ⟨raw, known, read, hash', _⟩ := base.own holder.listed holder.own
  exact ⟨raw, known, by rw [baseRaw_holder base.readable.distinct listed holder, read],
    hash.trans hash'⟩

end Kept

section
variable [Zstd] [LawfulZstd] [Xxh3] [SerdeJson] {buffers : Set Bytes} {a : Archive}
  {base : Option Kept} {algo : CompressionAlgo} {t : TensorData} {w : Tensor.Working}
  {pt placed : ProcessedTensor} {pack : Bytes}

/-- What was stored for a tensor reads back as the tensor. -/
theorem Stored.reads (stored : Stored base algo t w pt) (place : Coordinator.Placed pack pt placed)
    (faithful : Set.InjOn hashHex buffers) (known : w.data ∈ buffers)
    (bases : ∀ b, base = some b → b.Base buffers a) :
    rawOf algo pack (base.map Kept.baseRaw) placed.entry = .ok w.data := by
  obtain ⟨offset, moved⟩ := place.entry
  have lies := place.lies
  rw [moved] at lies ⊢
  cases stored with
  | @full blob packed =>
    have here := lies blob rfl
    have within := here.within
    have slice := here.slice
    simp only [rawOf, Tensor.loadRawWith, Tensor.loadFull, Tensor.stored, Option.map_some,
      Option.getD_some, Tensor.extractCompressed, within, if_true, slice, bind, Except.bind]
    simpa using Compression.decompress_compress packed
  | @skipped b e from_ listed name hash =>
    subst from_
    obtain ⟨raw, known', read, hash'⟩ := (bases b rfl).answers listed
    have same : raw = w.data := faithful known' known (hash'.symm.trans hash)
    simp only [rawOf, Tensor.loadRawWith, Tensor.stored, Option.map_some, ← name, read, same]
  | @delta b e baseRaw diff blob from_ listed name own read differ packed =>
    subst from_
    have here := lies blob rfl
    have within := here.within
    have slice := here.slice
    have unpacked := Compression.decompress_compress packed
    have applied := Delta.applyDelta_computeDelta differ
    have answer : b.baseRaw t.name = .ok baseRaw := by
      rw [← name, Kept.baseRaw_holder (bases b rfl).readable.distinct listed
        ⟨listed, by simp [own], .inl rfl⟩, read]
    simp only [rawOf, Tensor.loadRawWith, Tensor.loadXor, Tensor.stored, Option.map_some,
      Option.getD_some, Tensor.extractCompressed, within, if_true, slice, bind, Except.bind, unpacked,
      pure, Except.pure, answer, decide_eq_true_eq]
    by_cases wide : Shuffle.elementSize w.dtype > 1
    · simp [wide, Shuffle.unshuffle_shuffle, applied]
    · simp [wide, applied]

end

section
variable [Zstd] [Xxh3] {base : Option Kept} {algo : CompressionAlgo} {t : TensorData}
  {w : Tensor.Working} {pt placed : ProcessedTensor} {pack : Bytes}

/-- What every way to store a tensor records of it. -/
structure Describes (t : TensorData) (w : Tensor.Working) (e : TensorEntry) : Prop where
  name : e.name = t.name
  shape : e.shape = t.shape
  dtype : e.dtype = w.dtype
  originalDtype : e.originalDtype = w.originalDtype
  quantScale : e.quantScale = w.quantScale
  filename : e.filename = none
  hashRaw : e.hashRaw = hashHex w.data
  rawSize : e.rawSize = w.data.length
  own : e.storage ≠ .aliased

theorem Stored.describes (stored : Stored base algo t w pt) : Describes t w pt.entry := by
  cases stored <;> constructor <;> simp [Tensor.stored]

omit [Zstd] in
theorem Describes.place (describes : Describes t w pt.entry)
    (placing : Coordinator.Placed pack pt placed) : Describes t w placed.entry := by
  obtain ⟨offset, moved⟩ := placing.entry
  rw [moved]
  exact ⟨describes.name, describes.shape, describes.dtype, describes.originalDtype,
    describes.quantScale, describes.filename, describes.hashRaw, describes.rawSize, describes.own⟩

/-- Without a base there is only one way to store a tensor. -/
theorem Stored.rooted (stored : Stored none algo t w pt) (place : Coordinator.Placed pack pt placed) :
    placed.entry.storage = .full := by
  obtain ⟨offset, moved⟩ := place.entry
  rw [moved]
  cases stored with
  | full => rfl
  | skipped from_ => contradiction
  | delta from_ => contradiction

omit [Zstd] in
theorem tensorIsIntact_of_lies {files : Files} {path : Path} {e : TensorEntry} {blob : Bytes}
    (found : files.find? path = some pack) (lies : Lies pack e.offset blob)
    (size : e.compressedSize = blob.length) (hash : e.hashCompressed = some (hashHex blob)) :
    Recovery.tensorIsIntact files (some path) e = true := by
  simp [Recovery.tensorIsIntact, hash, size, Storage.getRange_lies found lies, Except.toOption]

/-- The stored bytes bear the hash recorded for them. -/
theorem Stored.intact (stored : Stored base algo t w pt) (place : Coordinator.Placed pack pt placed)
    {files : Files} {path : Path} (found : files.find? path = some pack) :
    Recovery.tensorIsIntact files (some path) placed.entry = true := by
  obtain ⟨offset, moved⟩ := place.entry
  have lies := place.lies
  rw [moved] at lies ⊢
  cases stored with
  | skipped => rfl
  | full => exact tensorIsIntact_of_lies found (lies _ rfl) rfl rfl
  | delta => exact tensorIsIntact_of_lies found (lies _ rfl) rfl rfl

end
end Moonclip
