import Moonclip.Ranks
import Moonclip.Pieces
import Moonclip.Runs

/-! A base kept in memory and the same base on disk: a tensor is stored alike
against either. -/
namespace Moonclip
open Library.Codec Library.Effect Library.Files Library.Outcome Library.Tables

/-- What a frame decodes to before its window ends: the sampled length of what was
compressed, or all of it. -/
class LawfulSampler [Zstd] : Prop where
  sampled {data packed : Bytes} {level : Int} : Compression.compress data (.zstd level) = .ok packed →
    Compression.decompressPrefix (packed.take Tensor.sampleWindow) (.zstd level) Tensor.sampleRaw =
      .ok (data.take Tensor.sampleRaw)

namespace Linked

/-- The frames of one raw block are short enough to be sampled whole. -/
theorem zstd_sampled : @LawfulSampler zstd := by
  let _ := zstd
  constructor
  intro data packed level made
  -- nothing this long is one raw block
  have small : data.length < 256 ∧ packed = rawFrame data := by
    simp only [Compression.compress] at made
    split at made
    · exact bulkCompress_eq_ok (mapError_eq_ok.mp made)
    · rename_i long
      simp only [Library.Outcome.bind_eq_ok, mapM_eq_ok, mapError_eq_ok] at made
      obtain ⟨frames, framed, _⟩ := made
      have positive : 0 < (data.length + Compression.parallelChunk - 1) / Compression.parallelChunk :=
        Nat.div_pos (by omega) (by decide)
      have first : data.take Compression.parallelChunk ∈
          Library.Blocks.chunks Compression.parallelChunk data :=
        List.mem_map.mpr ⟨0, List.mem_range.mpr positive, by simp⟩
      obtain ⟨frame, _, packed⟩ := exists_result framed first
      have bounded := (bulkCompress_eq_ok packed).1
      rw [List.length_take_of_le (by omega)] at bounded
      exact absurd bounded (by decide)
  obtain ⟨small, rfl⟩ := small
  have length : (rawFrame data).length = data.length + 9 := by
    simp [rawFrame, frameHeader]
  have whole : (rawFrame data).take Tensor.sampleWindow = rawFrame data := by
    apply List.take_of_length_le
    simp only [length, Tensor.sampleWindow]
    omega
  rw [whole]
  change Except.ok (((rawFrame data).drop 9).take Tensor.sampleRaw) = _
  simp [rawFrame, frameHeader]

end Linked

section
variable [Zstd]

theorem Compression.decompressPrefix_compress [LawfulSampler] {data packed : Bytes} {algo : CompressionAlgo}
    (made : compress data algo = .ok packed) :
    decompressPrefix (packed.take Tensor.sampleWindow) algo Tensor.sampleRaw =
      .ok (data.take Tensor.sampleRaw) := by
  cases algo with
  | zstd level => exact LawfulSampler.sampled made
  | none =>
    obtain rfl : data = packed := by simpa [compress] using made
    simp [decompressPrefix, List.take_take, Tensor.sampleRaw, Tensor.sampleWindow]

/-- Only the sampled prefix of a base is looked at. -/
theorem Delta.paysOff_take {base target : Bytes} {algo : CompressionAlgo} {maxRatio : Float}
    {itemsize : Nat} : paysOff (base.take decisionSample) target algo maxRatio itemsize =
      paysOff base target algo maxRatio itemsize := by
  have same : min (min (base.take decisionSample).length target.length) decisionSample =
      min (min base.length target.length) decisionSample := by
    rw [List.length_take]
    omega
  have within : min (min (min base.length target.length) decisionSample) decisionSample =
      min (min base.length target.length) decisionSample := by omega
  simp only [paysOff, same, List.take_take, within]

/-- In `held` are, under the names of entries stored in full, the bytes that were
compressed into the pack. -/
def HeldOf (cache : BaseCache) (body : Bytes) (held : TensorMap) : Prop :=
  ∀ (name : String) data e, held[name]? = some data → cache.entries[name]? = some e → e.storage = .full →
    ∃ blob, Compression.compress data cache.compression = .ok blob ∧ Lies body e.offset blob ∧
      e.compressedSize = blob.length

namespace BaseCache
variable {files : Files} {cache : BaseCache} {body data blob : Bytes} {pack : Path} {e : TensorEntry}

theorem samplePrefix_of_lies [LawfulSampler] (at_ : cache.packFile = some pack)
    (stored : files.find? pack = some body) (full : e.storage = .full)
    (packed : Compression.compress data cache.compression = .ok blob) (lies : Lies body e.offset blob)
    (size : e.compressedSize = blob.length) :
    cache.samplePrefix files e Tensor.sampleRaw = some (data.take Tensor.sampleRaw) := by
  have window : ((body.drop e.offset).take (min blob.length Tensor.sampleWindow)) =
      blob.take Tensor.sampleWindow := by
    rw [Nat.min_comm, ← List.take_take, lies.slice]
  have read : Storage.getRange files pack e.offset (min blob.length Tensor.sampleWindow) =
      .ok (blob.take Tensor.sampleWindow) := by
    rw [Storage.getRange_within stored, window]
    have within := lies.within
    omega
  simp only [samplePrefix, full, at_, size, read, bind, Except.toOption, Option.bind]
  simp [Compression.decompressPrefix_compress packed]

theorem baseBytes_of_lies [LawfulZstd] (at_ : cache.packFile = some pack)
    (stored : files.find? pack = some body) (full : e.storage = .full)
    (packed : Compression.compress data cache.compression = .ok blob) (lies : Lies body e.offset blob)
    (size : e.compressedSize = blob.length) :
    ({ cache with raw := none }).baseBytes files e = .ok (some data) := by
  simp only [baseBytes, full, readCompressed, at_, size, Storage.getRange_lies stored lies, bind,
    Except.bind, Except.pure, pure, Option.bind]
  simp [Compression.decompress_compress packed]

end BaseCache

namespace Tensor
variable [LawfulZstd] [LawfulSampler] [Xxh3] {files : Files} {cache : BaseCache} {body : Bytes} {pack : Path}
  {held : TensorMap} {algo : CompressionAlgo} {maxRatio : Float} {t : TensorData}

/-- Memory and disk come to one verdict on the delta. -/
theorem tryDelta_held {w : Working} {e : TensorEntry} (at_ : cache.packFile = some pack)
    (stored : files.find? pack = some body) (holds : HeldOf cache body held)
    (entry : cache.entries[t.name]? = some e) (name : e.name = t.name) :
    tryDelta files { cache with raw := some held } e t w algo maxRatio =
      tryDelta files { cache with raw := none } e t w algo maxRatio := by
  by_cases fits : e.rawSize = w.data.length ∧ e.storage = .full ∧ Delta.deltaMinSize ≤ w.data.length
  · simp only [tryDelta, if_pos fits]
    cases kept : held[t.name]? with
    | none =>
      have absent : held.contains t.name = false := by
        rw [Std.ExtTreeMap.contains_eq_isSome_getElem?, kept]
        rfl
      have sample : ({ cache with raw := some held }).samplePrefix files e sampleRaw =
          ({ cache with raw := none }).samplePrefix files e sampleRaw := rfl
      have bytes : ({ cache with raw := some held }).baseBytes files e =
          ({ cache with raw := none }).baseBytes files e := by
        have nothing : (some held).bind (·[e.name]?) = none := by rw [name]; exact kept
        unfold BaseCache.baseBytes
        dsimp only
        rw [nothing]
        rfl
      simp only [BaseCache.hasRaw, absent, Bool.false_eq_true, if_false]
      rw [sample, bytes]
    | some data =>
      obtain ⟨blob, packed, lies, size⟩ := holds _ data e kept entry fits.2.1
      have present : held.contains t.name = true := by
        rw [Std.ExtTreeMap.contains_eq_isSome_getElem?, kept]
        rfl
      have sample : ({ cache with raw := none }).samplePrefix files e sampleRaw =
        some (data.take sampleRaw) :=
        BaseCache.samplePrefix_of_lies at_ stored fits.2.1 packed lies size
      have onDisk := BaseCache.baseBytes_of_lies at_ stored fits.2.1 packed lies size
      have inMemory : ({ cache with raw := some held }).baseBytes files e = .ok (some data) := by
        simp [BaseCache.baseBytes, fits.2.1, name, kept]
      have verdict := @Delta.paysOff_take _ data w.data algo maxRatio (Shuffle.elementSize w.dtype)
      rw [show Delta.decisionSample = sampleRaw from rfl] at verdict
      simp only [BaseCache.hasRaw, present, if_true, sample, onDisk, inMemory, verdict, bind, Except.bind,
        Bool.false_eq_true, if_false, Option.getD_none]
      -- a sample long enough to judge decides as the whole base does
      generalize (data.take sampleRaw).length = length
      cases Delta.paysOff data w.data algo maxRatio (Shuffle.elementSize w.dtype) with
      | true => by_cases enough : sampleMin ≤ length <;> simp [enough]
      | false => by_cases enough : sampleMin ≤ length <;> simp [enough]
  · simp only [tryDelta, if_neg fits]

/-- A tensor is stored alike whichever of the two its base is read from. -/
theorem processTensor_held {policy : DTypePolicy} {entries : List TensorEntry} (cache : BaseCache)
    (named : cache.entries = entriesByName entries) (at_ : cache.packFile = some pack)
    (stored : files.find? pack = some body) (holds : HeldOf cache body held) :
    processTensor files (some { cache with raw := some held }) algo maxRatio policy t =
      processTensor files (some { cache with raw := none }) algo maxRatio policy t := by
  cases found : cache.entries[t.name]? with
  | none => simp only [processTensor, Option.bind_some, found, Option.map_none]
  | some e =>
    have name : e.name = t.name := name_of_entriesByName (named ▸ found)
    simp only [processTensor, Option.bind_some, found, Option.map_some]
    congr 1
    funext w
    rw [tryDelta_held at_ stored holds found name]

end Tensor
end

section
variable [Zstd] [Xxh3] [SerdeJson] {cfg : Config} {snapId : Uuid} {base : Option Snapshot}
  {tensors : List TensorData} {context : SnapshotContext} {w : World}

namespace Coordinator

/-- What a save leaves in memory: what was there, or after a full what it was made of. -/
def retainedAfter (cfg : Config) (snapId : Uuid) (base : Option Snapshot) (tensors : List TensorData)
    (w : World) : Option RetainedBase :=
  match processAll cfg w.disk.files (buildBaseCache cfg.rank w.retainedBase base) tensors with
  | .ok processed =>
    if base.isNone && cfg.keepBaseInMemory then some (retainBase snapId tensors processed)
    else w.retainedBase
  | .error _ => w.retainedBase

theorem saveRankTensors_retained : Triple (fun s => s = w) (saveRankTensors cfg snapId base tensors context)
    (fun _ s => s.retainedBase = retainedAfter cfg snapId base tensors w)
    fun _ s => s.retainedBase = retainedAfter cfg snapId base tensors w := by
  refine Triple.get_bind_of ?_
  extract_lets cache
  cases made : processAll cfg w.disk.files cache tensors with
  | error e =>
    have same : retainedAfter cfg snapId base tensors w = w.retainedBase := by
      simp only [retainedAfter]
      rw [made]
    refine Triple.returning_error rfl ?_
    rintro s rfl
    exact same.symm
  | ok processed =>
    have is : retainedAfter cfg snapId base tensors w =
        if base.isNone && cfg.keepBaseInMemory then some (retainBase snapId tensors processed)
        else w.retainedBase := by
      simp only [retainedAfter]
      rw [made]
    refine Triple.returning_ok rfl ?_
    extract_lets placed rankEntry rest
    -- what is in memory when the pack is made is left alone
    have tail : ∀ r, Triple (fun s => s.retainedBase = r) (rest ()) (fun _ s => s.retainedBase = r)
        fun _ s => s.retainedBase = r := by
      intro r
      refine Triple.returning_keep (fun parts => ?_) fun _ _ kept => kept
      refine Triple.bind (fun _ s => s.retainedBase = r)
        (Storage.put_spec (fun s kept _ => kept) fun _ _ kept => kept) fun _ => ?_
      exact Triple.pure fun _ kept => kept
    rw [is]
    split
    · exact Triple.modify_bind _ (fun s _ => rfl) fun _ => tail _
    · refine Triple.weaken _ (tail _) ?_ (fun _ _ kept => kept) fun _ _ kept => kept
      rintro s rfl
      rfl

/-- What is kept of a full was compressed into its pack. -/
theorem heldOf_retainBase {cache : BaseCache} {processed : List ProcessedTensor} {d : PackDescriptor}
    {parts : List Bytes} {page : Nat} (distinct : (tensors.map (·.name)).Nodup)
    (ran : processAll cfg w.disk.files none tensors = .ok processed)
    (made : packParts d (blobsOf (assignOffsets Pack.headerLen processed)) = .ok parts)
    (entries : cache.entries =
      entriesByName ((assignOffsets Pack.headerLen processed).map (·.entry)))
    (compression : cache.compression = cfg.compression) :
    HeldOf cache (pad page parts.flatten) (retainBase snapId tensors processed).tensors := by
  obtain ⟨encoded, header, _, head, laid⟩ := packParts_eq_ok made
  have each : Processed none cfg tensors processed :=
    processAll_processed distinct (by simp) ran
  have placed : List.Forall₂ (Placed parts.flatten) processed (assignOffsets Pack.headerLen processed) := by
    have size : header.length = Pack.headerLen := by rw [head, Pack.length_encodeHeader]
    rw [← size] at laid ⊢
    have whole : parts.flatten = header ++ (blobsOf processed).flatten ++ encoded := by
      rw [laid, blobsOf_assignOffsets]
    exact assignOffsets_placed whole
  intro name data e held there full
  rw [entries] at there
  simp only [retainBase] at held
  have bound := mem_of_getElem?_ofList held
  simp only [List.mem_map, List.mem_filter, List.contains_eq_mem, decide_eq_true_eq,
    Prod.mk.injEq] at bound
  obtain ⟨t, ⟨given, pt, ⟨present, isFull, kept⟩, same⟩, rfl, rfl⟩ := bound
  obtain ⟨moved, out, place⟩ := exists_result placed present
  obtain ⟨offset, is⟩ := place.entry
  have names : ((assignOffsets Pack.headerLen processed).map (·.entry)).map (·.name) =
      processed.map (·.entry.name) := by
    rw [List.map_map]
    refine (map_eq_map placed fun a b place => ?_).symm
    obtain ⟨_, moved⟩ := place.entry
    rw [Function.comp_apply, moved]
  have fresh : (((assignOffsets Pack.headerLen processed).map (·.entry)).map (·.name)).Nodup := by
    rw [names]
    exact each.names.nodup_iff.mpr distinct
  obtain rfl : e = moved.entry := by
    refine eq_of_name fresh (mem_of_entriesByName there) (List.mem_map_of_mem out) ?_
    rw [name_of_entriesByName there, is, same]
  rcases each.each pt present with ⟨t', given', copy, copied, stored⟩ | shared
  · have described := stored.describes
    obtain rfl : t' = t :=
      List.inj_on_of_nodup_map distinct given' given (described.name.symm.trans same)
    have original : copy.originalDtype = none := by simpa [described.originalDtype] using kept
    have lies := place.lies
    cases stored with
    | @full blob packed =>
      rw [(Tensor.workingCopy_untouched copied original).1] at packed
      refine ⟨blob, by rw [compression]; exact packed, (lies blob rfl).pad page, ?_⟩
      rw [is]
      rfl
    | skipped from_ => contradiction
    | delta from_ => contradiction
  · obtain ⟨_, _, _, _, _, _, _, _, _, rfl, _⟩ := shared
    contradiction

end Coordinator

/-- A save a process tried, and what it wrote if it was not refused. -/
structure Attempt where
  id : Uuid
  wrote : Option (RankEntry × Bytes)

/-- The states one process comes to by saving again and again. Whatever else happens,
in this process or another, leaves its memory of the last full alone. -/
inductive Saving (cfg : Config) : World → List Attempt → Prop where
  | opened (w : World) (nothing : w.retainedBase = none) : Saving cfg w []
  | meanwhile (w w' : World) (attempts : List Attempt) (before : Saving cfg w attempts)
      (same : w'.retainedBase = w.retainedBase) : Saving cfg w' attempts
  | saved (w : World) (attempts : List Attempt) (id : Uuid) (base : Option Snapshot)
      (tensors : List TensorData) (context : SnapshotContext) (entry : RankEntry) (after : World)
      (body : Bytes) (before : Saving cfg w attempts) (fresh : id ∉ attempts.map (·.id))
      (distinct : (tensors.map (·.name)).Nodup)
      (ran : Coordinator.saveRankTensors cfg id base tensors context w = .ok entry after)
      (found : after.disk.files.find? (packPath id cfg.rank) = some body) :
      Saving cfg after (⟨id, some (entry, body)⟩ :: attempts)
  | failed (w : World) (attempts : List Attempt) (id : Uuid) (base : Option Snapshot)
      (tensors : List TensorData) (context : SnapshotContext) (e : MoonclipError) (after : World)
      (before : Saving cfg w attempts) (fresh : id ∉ attempts.map (·.id))
      (ran : Coordinator.saveRankTensors cfg id base tensors context w = .error e after) :
      Saving cfg after (⟨id, none⟩ :: attempts)

/-- The pack of the full that `r` was kept of holds what is in `r`. -/
structure Remembers (cfg : Config) (r : RetainedBase) (attempts : List Attempt) : Prop where
  tried : r.snapId ∈ attempts.map (·.id)
  held : ∀ entry body, ⟨r.snapId, some (entry, body)⟩ ∈ attempts →
    entry.packFile = some (packPath r.snapId cfg.rank) ∧
    HeldOf ⟨entry.packFile, entriesByName entry.tensors, cfg.compression, none⟩ body r.tensors

omit [Xxh3] [SerdeJson] in
theorem Remembers.cons {r : RetainedBase} {attempts : List Attempt} {a : Attempt}
    (remembers : Remembers cfg r attempts) (fresh : a.id ∉ attempts.map (·.id)) :
    Remembers cfg r (a :: attempts) where
  tried := by simp [remembers.tried]
  held entry body there := by
    rcases List.mem_cons.mp there with rfl | before
    · exact absurd remembers.tried fresh
    · exact remembers.held entry body before

omit [SerdeJson] in
/-- What is in memory after a save was there before, or is what the save was given. -/
theorem Coordinator.retainedAfter_eq_some {r : RetainedBase}
    (kept : retainedAfter cfg snapId base tensors w = some r) : w.retainedBase = some r ∨
      base = none ∧ ∃ processed, processAll cfg w.disk.files none tensors = .ok processed ∧
        r = retainBase snapId tensors processed := by
  unfold retainedAfter at kept
  split at kept
  · rename_i processed made
    split at kept
    · rename_i full
      obtain ⟨root, _⟩ := Bool.and_eq_true_iff.mp full
      obtain rfl := Option.isNone_iff_eq_none.mp root
      exact .inr ⟨rfl, processed, made, (Option.some.inj kept).symm⟩
    · exact .inl kept
  · exact .inl kept

theorem Saving.remembers {attempts : List Attempt} (run : Saving cfg w attempts) :
    ∀ r, w.retainedBase = some r → Remembers cfg r attempts := by
  induction run with
  | opened w nothing => simp [nothing]
  | meanwhile w w' attempts before same ih => rwa [same]
  | saved w attempts id base tensors context entry after body before fresh distinct ran found ih =>
    intro r kept
    rw [Coordinator.saveRankTensors_retained.ok rfl ran] at kept
    rcases Coordinator.retainedAfter_eq_some kept with held | ⟨rfl, processed, made, rfl⟩
    · exact (ih r held).cons fresh
    · refine ⟨List.mem_cons_self, fun entry' body' there => ?_⟩
      obtain ⟨_, parts, packed, disk, _⟩ := Coordinator.saveRankTensors_spec.ok rfl ran
      have none : Coordinator.buildBaseCache cfg.rank w.retainedBase none = none := rfl
      simp only [Coordinator.packOfSave, none, made, Library.Outcome.bind_eq_ok,
        Library.Outcome.pure_eq_ok, Except.ok.injEq, exists_eq_left'] at packed
      obtain ⟨_, packed, same⟩ := packed
      obtain ⟨rfl, rfl⟩ := Prod.mk.inj same
      rw [disk, Disk.files_change, Change.apply, FileStore.find?_put_self] at found
      obtain rfl := Option.some.inj found
      rcases List.mem_cons.mp there with now | before
      · simp only [Attempt.mk.injEq, Option.some.injEq, Prod.mk.injEq] at now
        obtain ⟨_, rfl, rfl⟩ := now
        exact ⟨rfl, Coordinator.heldOf_retainBase distinct made packed rfl rfl⟩
      · exact absurd (List.mem_map_of_mem before) fresh
  | failed w attempts id base tensors context e after before fresh ran ih =>
    intro r kept
    have outcome := @Coordinator.saveRankTensors_retained _ _ _ cfg id base tensors context w w rfl
    rw [ran] at outcome
    dsimp only at outcome
    rw [outcome] at kept
    rcases Coordinator.retainedAfter_eq_some kept with held | ⟨rfl, processed, made, rfl⟩
    · exact (ih r held).cons fresh
    · refine ⟨List.mem_cons_self, fun entry body there => ?_⟩
      rcases List.mem_cons.mp there with now | before
      · simp at now
      · exact absurd (List.mem_map_of_mem before) fresh

variable [LawfulZstd] [LawfulSampler]

/-- Against a base one of the saves wrote, and whose pack is as it was written, a
tensor is stored the same with what the run keeps in memory as from the pack. -/
theorem Saving.inMemory_eq_disk {attempts : List Attempt} (run : Saving cfg w attempts) (base : Snapshot)
    {entry : RankEntry} {body : Bytes} {files : Files}
    (wrote : ⟨base.id, some (entry, body)⟩ ∈ attempts) (ranks : base.ranks[cfg.rank]? = some entry)
    (compression : base.compression = cfg.compression)
    (intact : files.find? (packPath base.id cfg.rank) = some body) (algo : CompressionAlgo)
    (maxRatio : Float) (policy : DTypePolicy) (t : TensorData) :
    Tensor.processTensor files (Coordinator.buildBaseCache cfg.rank w.retainedBase (some base)) algo
        maxRatio policy t =
      Tensor.processTensor files (Coordinator.buildBaseCache cfg.rank none (some base)) algo maxRatio
        policy t := by
  have disk : Coordinator.buildBaseCache cfg.rank none (some base) =
      some ⟨entry.packFile, entriesByName entry.tensors, base.compression, none⟩ := by
    simp [Coordinator.buildBaseCache, ranks]
  cases kept : w.retainedBase.filter (·.snapId == base.id) with
  | none =>
    have memory : Coordinator.buildBaseCache cfg.rank w.retainedBase (some base) =
        Coordinator.buildBaseCache cfg.rank none (some base) := by
      simp [Coordinator.buildBaseCache, kept]
    rw [memory]
  | some r =>
    obtain ⟨held, same⟩ := Option.filter_eq_some_iff.mp kept
    have same : r.snapId = base.id := by simpa using same
    have memory : Coordinator.buildBaseCache cfg.rank w.retainedBase (some base) =
        some ⟨entry.packFile, entriesByName entry.tensors, base.compression, some r.tensors⟩ := by
      simp [Coordinator.buildBaseCache, ranks, kept]
    obtain ⟨pack, holds⟩ := (run.remembers r held).held entry body (by rwa [same])
    rw [memory, disk]
    rw [same] at pack
    rw [← compression] at holds
    exact Tensor.processTensor_held
      ⟨entry.packFile, entriesByName entry.tensors, base.compression, none⟩ rfl pack
      intact holds

end

namespace Nudged

/-- The hash, for the tensor before and after one byte of it changed. -/
abbrev xxh3 : Xxh3 where
  xxh3_128 data :=
    if data = before then 0x786D3DC79E646A5540D4D8A9314DFCD8
    else if data = after then 0x739AF0C64083898F6B97F6ABD8E52EEF
    else Linked.xxh3.xxh3_128 data

def keeping : Config := { plainConfig .none with keepBaseInMemory := true }

def world : World := { blankWorld with disk := { blankWorld.disk with accepts := fun _ _ => true } }

def given (data : Bytes) : TensorData := { tensor with data := data }

/-- The full entry, where the save puts it. -/
def entry [Xxh3] (data : Bytes) : TensorEntry :=
  { (Tensor.stored (given data) ⟨data, "float32", none, none⟩ .full false (some data)).entry with
    offset := Pack.headerLen }

def rankEntry [Xxh3] (data : Bytes) : RankEntry := Coordinator.rankEntryOf 0 (packPath 7 0) [entry data]

def base [Xxh3] (data : Bytes) :
    Snapshot := Coordinator.snapshotOf keeping 7 none Lone.context (rankEntry data)

def descriptor [Xxh3] (data : Bytes) : PackDescriptor := ⟨7, 100, 5, none, ∅, .none, 1, rankEntry data⟩

abbrev serde [Xxh3] (data : Bytes) : SerdeJson := JsonText.serde (fun _ => []) [] [] [descriptor data] []

theorem hashed : @hashHex xxh3 before ≠ @hashHex xxh3 after := by
  have earlier : xxh3.xxh3_128 before = 0x786D3DC79E646A5540D4D8A9314DFCD8 := if_pos rfl
  have later : xxh3.xxh3_128 after = 0x739AF0C64083898F6B97F6ABD8E52EEF :=
    (if_neg changed.symm).trans (if_pos rfl)
  unfold hashHex
  rw [earlier, later]
  decide +kernel

section
variable [Zstd] [Xxh3] {data : Bytes}

theorem processed {left : Files} (size : data.length = 4096) :
    Coordinator.processAll keeping left none [given data] =
    .ok [Tensor.stored (given data) ⟨data, "float32", none, none⟩ .full false (some data)] := by
  simp [Coordinator.processAll, Tensor.dedupPlan, given, tensor, Tensor.processTensor, keeping, plainConfig,
    Tensor.makeFullEntry, Compression.compress, size, Delta.deltaMinSize, bind, Except.bind,
      pure, Except.pure]

omit [Zstd] [Xxh3] in
theorem cold : Coordinator.buildBaseCache keeping.rank world.retainedBase none = none := rfl

theorem packed (size : data.length = 4096) : let _ := serde data
    ∃ parts, Coordinator.packOfSave keeping 7 none [given data] Lone.context world =
      .ok (rankEntry data, parts) := by
  intro serde
  obtain ⟨text, encoded⟩ : ∃ text, serde.descriptor.toVec (descriptor data) = .ok text := by
    apply JsonText.serde_descriptor
    exact List.mem_singleton_self _
  have parts : ∃ parts, Coordinator.packParts (descriptor data) [data] = .ok parts := by
    simp only [Coordinator.packParts, encoded]
    exact ⟨_, rfl⟩
  obtain ⟨parts, made⟩ := parts
  refine ⟨parts, ?_⟩
  rw [Coordinator.packOfSave, cold, processed size]
  change (Coordinator.packParts (descriptor data) [data] >>= fun parts => pure (rankEntry data, parts)) = _
  rw [made]
  rfl

/-- The full is saved, and its bytes stay in memory. -/
theorem kept (size : data.length = 4096) : let _ := serde data
    ∃ after body, Coordinator.saveRankTensors keeping 7 none [given data] Lone.context world =
        .ok (rankEntry data) after ∧
      after.disk.files.find? (packPath 7 0) = some body ∧
      after.retainedBase = some ⟨7, .ofList [("w", data)]⟩ := by
  intro serde
  obtain ⟨parts, packed⟩ := packed size
  have outcome := @Coordinator.saveRankTensors_spec serde _ _ keeping 7 none [given data]
    Lone.context world world rfl
  have retained :=
    @Coordinator.saveRankTensors_retained _ _ serde keeping 7 none [given data] Lone.context world world rfl
  cases ran : Coordinator.saveRankTensors keeping 7 none [given data] Lone.context world with
  | error e after =>
    have written : Coordinator.packWritten keeping 7 none [given data] Lone.context world = true := by
      rw [Coordinator.packWritten, packed]
      rfl
    simp only [ran] at outcome
    exact absurd (written.symm.trans outcome.1) (by simp)
  | ok entry after =>
    simp only [ran] at outcome retained
    obtain ⟨_, parts', packed', disk, _⟩ := outcome
    obtain ⟨rfl, rfl⟩ := Prod.mk.inj (Except.ok.inj (packed.symm.trans packed'))
    have found : after.disk.files.find? (packPath 7 0) = some (pad world.disk.pageSize parts.flatten) := by
      rw [disk]
      exact FileStore.find?_put_self
    refine ⟨after, _, rfl, found, ?_⟩
    rw [retained, Coordinator.retainedAfter, cold, processed size]
    rfl

omit [Zstd] in
theorem ranks_base : (base data).ranks[0]? = some (rankEntry data) := by
  simp [base, Coordinator.snapshotOf, keeping, plainConfig]

omit [Zstd] in
theorem cached : Coordinator.buildBaseCache 0 (some ⟨7, .ofList [("w", data)]⟩) (some (base data)) =
    some ⟨some (packPath 7 0), entriesByName [entry data], .none, some (.ofList [("w", data)])⟩ := by
  simp only [Coordinator.buildBaseCache, ranks_base, Option.bind_eq_bind, Option.bind_some]
  rfl

/-- A tensor with another hash is given to the delta path. -/
theorem against {left : Files} {t : TensorData} {pt : ProcessedTensor} (named : t.name = "w")
    (size : data.length = 4096)
    (other : hashHex data ≠ hashHex t.data)
    (delta : ∀ (kept : BaseCache) (e : TensorEntry), kept.raw = some (.ofList [("w", data)]) →
      e.storage = .full →
      e.name = "w" → e.rawSize = 4096 →
      Tensor.tryDelta left kept e t ⟨t.data, t.dtype, none, none⟩ .none 0.8 = .ok (some pt)) :
    Tensor.processTensor left
      (Coordinator.buildBaseCache 0 (some ⟨7, .ofList [("w", data)]⟩) (some (base data))) .none
      0.8 .none t = .ok pt := by
  have listed : (entriesByName [entry data])["w"]? = some (entry data) :=
    @getElem?_entriesByName [_] _ (List.nodup_singleton _) (List.mem_singleton_self _)
  have another : (entry data).hashRaw ≠ hashHex t.data := other
  have tried :=
    delta ⟨some (packPath 7 0), entriesByName [entry data], .none, some (.ofList [("w", data)])⟩ (entry data)
    rfl rfl rfl size
  rw [cached]
  simp only [Tensor.processTensor, Tensor.workingCopy_none, bind, Except.bind,
    Option.bind_some, named, listed,
    Option.map_some, if_neg another, tried]
  rfl

end

end Nudged

/-- One byte of a tensor changed, against the bytes in memory and against the pack. -/
theorem Saving.inMemory_eq_disk_nudged :
    let _ := Linked.zstd
    let _ := Nudged.xxh3
    let _ := Nudged.serde Nudged.before
    ∃ w, Coordinator.saveRankTensors Nudged.keeping 7 none [Nudged.given Nudged.before]
      Lone.context Nudged.world =
        .ok (Nudged.rankEntry Nudged.before) w ∧
      Tensor.processTensor w.disk.files
          (Coordinator.buildBaseCache 0 w.retainedBase (some (Nudged.base Nudged.before))) .none 0.8 .none
          Nudged.tensor =
        Tensor.processTensor w.disk.files
          (Coordinator.buildBaseCache 0 none (some (Nudged.base Nudged.before)))
          .none 0.8 .none Nudged.tensor ∧
      Tensor.processTensor w.disk.files (Coordinator.buildBaseCache 0 none (some (Nudged.base Nudged.before)))
          .none 0.8 .none Nudged.tensor =
        .ok (Tensor.stored Nudged.tensor Nudged.working .deltaXor true (some Nudged.payload)) := by
  intro zstd xxh3 serde
  have := Linked.zstd_lawful
  have := Linked.zstd_sampled
  obtain ⟨w, body, saved, found, kept⟩ := Nudged.kept Nudged.length_before
  have run : Saving Nudged.keeping w [⟨7, some (Nudged.rankEntry Nudged.before, body)⟩] :=
    .saved Nudged.world [] 7 none [Nudged.given Nudged.before] Lone.context
      (Nudged.rankEntry Nudged.before) w body
      (.opened _ rfl) (by simp) (by simp) saved found
  have same := run.inMemory_eq_disk (Nudged.base Nudged.before) (List.mem_singleton_self _)
    Nudged.ranks_base rfl
    found .none 0.8 .none Nudged.tensor
  have stored : Tensor.processTensor w.disk.files
      (Coordinator.buildBaseCache 0 w.retainedBase (some (Nudged.base Nudged.before))) .none 0.8
        .none Nudged.tensor =
        .ok (Tensor.stored Nudged.tensor Nudged.working .deltaXor true (some Nudged.payload)) := by
    rw [kept]
    exact Nudged.against rfl Nudged.length_before Nudged.hashed fun _ _ => Nudged.saved
  exact ⟨w, saved, same, same.symm.trans stored⟩

end Moonclip
