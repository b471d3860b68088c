import Moonclip.Cast
import Moonclip.Delta
import Moonclip.Storage

/-! One tensor: how a save decides to store it, and how a load reads it back. -/
namespace Moonclip
open Library.Outcome

/-- A tensor ready to be saved. -/
structure TensorData where
  name : String
  shape : List Nat
  dtype : String
  data : Bytes
deriving DecidableEq, Repr

/-- An entry, and the bytes to write for it unless it needs none. -/
structure ProcessedTensor where
  entry : TensorEntry
  writeData : Option Bytes

abbrev EntryMap := Std.ExtTreeMap String TensorEntry

/-- Entries keyed by name; of two under one name the last counts. -/
def entriesByName (entries : List TensorEntry) : EntryMap :=
  .ofList (entries.map fun e => (e.name, e))

/-- Lazy handle to the base snapshot's data for delta comparison. -/
structure BaseCache where
  packFile : Option Path
  entries : EntryMap
  compression : CompressionAlgo
  /-- Raw bytes of the base snapshot, when they were kept after writing it. -/
  raw : Option TensorMap

namespace Tensor

def sampleRaw : Nat := 64 * 1024
def sampleWindow : Nat := 256 * 1024
def sampleMin : Nat := 8 * 1024

/-- `truncate`, unless no size is recorded. -/
def truncateTo (size : Nat) (data : Bytes) : Bytes := if size > 0 then data.take size else data

end Tensor

namespace BaseCache

/-- Read the compressed bytes for a tensor (full entry). -/
def readCompressed (files : Files) (cache : BaseCache) (entry : TensorEntry) :
    Except MoonclipError (Option Bytes) :=
  match cache.packFile with
  | some pack => do
    let data ← Storage.getRange files pack entry.offset entry.compressedSize
    return if data.length = entry.compressedSize then some data else none
  | none =>
    match entry.filename with
    | some filename =>
      match Storage.get files filename with
      | .ok data => .ok (some (Tensor.truncateTo entry.compressedSize data))
      | .error _ => .ok none
    | none => .ok none

def hasRaw (cache : BaseCache) (name : String) : Bool :=
  match cache.raw with
  | some raw => raw.contains name
  | none => false

variable [Zstd]

/-- Best-effort decompression of the first bytes of a base tensor. -/
def samplePrefix (files : Files) (cache : BaseCache) (entry : TensorEntry) (maxRaw : Nat) :
    Option Bytes :=
  if entry.storage ≠ .full then none
  else do
    let window := min entry.compressedSize Tensor.sampleWindow
    let compressed ← match cache.packFile with
      | some pack => (Storage.getRange files pack entry.offset window).toOption
      | none => do
        let filename ← entry.filename
        let data ← (Storage.get files filename).toOption
        return data.take window
    (Compression.decompressPrefix compressed cache.compression maxRaw).toOption

/-- Raw bytes of a base tensor, from memory where they were kept. -/
def baseBytes (files : Files) (cache : BaseCache) (entry : TensorEntry) :
    Except MoonclipError (Option Bytes) :=
  if entry.storage ≠ .full then .ok none
  else match cache.raw.bind (·[entry.name]?) with
    | some bytes => .ok (some bytes)
    | none => do
      match ← cache.readCompressed files entry with
      | some compressed => some <$> Compression.decompress compressed cache.compression
      | none => return none

end BaseCache

namespace Tensor
variable [Zstd] [Xxh3]

/-- Plan intra-snapshot deduplication: for each tensor, the one that will hold
its bytes when it is a duplicate. Keyed on hash and dtype. -/
def dedupPlan (seen : List ((String × String) × String)) : List TensorData → List (Option String)
  | [] => []
  | t :: rest =>
    if t.data.length < Delta.deltaMinSize then none :: dedupPlan seen rest
    else
      let key := (hashHex t.data, t.dtype)
      match seen.lookup key with
      | some owner => some owner :: dedupPlan seen rest
      | none => none :: dedupPlan ((key, t.name) :: seen) rest

/-- The entry for a tensor whose bytes live under another name. -/
def makeAliasEntry (tensor : TensorData) (target : TensorEntry) : TensorEntry where
  name := tensor.name
  shape := tensor.shape
  dtype := target.dtype
  originalDtype := target.originalDtype
  quantScale := target.quantScale
  storage := .aliased
  aliasOf := some target.name
  filename := none
  offset := 0
  compressedSize := 0
  rawSize := target.rawSize
  hashRaw := target.hashRaw
  hashCompressed := none
  shuffled := false

/-- The bytes of a tensor as they will be stored. -/
structure Working where
  data : Bytes
  dtype : String
  originalDtype : Option String
  quantScale : Option FiniteF32

/-- Cast if requested and applicable. -/
def workingCopy (tensor : TensorData) (saveDtype : DTypePolicy) : Except MoonclipError Working := do
  let target := saveDtype.forTensor tensor.name
  let (data, dtype, scale) ←
    if target ≠ .none ∧ Cast.isCastableFloat tensor.dtype then
      Cast.castTensor tensor.data tensor.dtype target
    else .ok (tensor.data, tensor.dtype, none)
  return ⟨data, dtype, if dtype ≠ tensor.dtype then some tensor.dtype else none, scale⟩

/-- The entry of a tensor, with the bytes it stores if it stores any. Its place
in the pack is the coordinator's to set. -/
def stored (tensor : TensorData) (w : Working) (storage : TensorStorage) (shuffled : Bool)
    (blob : Option Bytes) : ProcessedTensor where
  entry := {
    name := tensor.name
    shape := tensor.shape
    dtype := w.dtype
    originalDtype := w.originalDtype
    quantScale := w.quantScale
    storage := storage
    aliasOf := none
    filename := none
    offset := 0
    compressedSize := (blob.map List.length).getD 0
    rawSize := w.data.length
    hashRaw := hashHex w.data
    hashCompressed := blob.map hashHex
    shuffled := shuffled }
  writeData := blob

/-- The delta against a full base of the same size, when it pays. -/
def tryDelta (files : Files) (cache : BaseCache) (baseEntry : TensorEntry) (tensor : TensorData)
    (w : Working) (algo : CompressionAlgo) (maxRatio : Float) :
    Except MoonclipError (Option ProcessedTensor) :=
  if baseEntry.rawSize = w.data.length ∧ baseEntry.storage = .full ∧
      Delta.deltaMinSize ≤ w.data.length then do
    let itemsize := Shuffle.elementSize w.dtype
    let sample :=
      if cache.hasRaw tensor.name then none else cache.samplePrefix files baseEntry sampleRaw
    let sampledVerdict := match sample with
      | some window =>
        if sampleMin ≤ window.length then
          some (Delta.paysOff window w.data algo maxRatio itemsize)
        else none
      | none => none
    if sampledVerdict = some false then return none
    else match ← cache.baseBytes files baseEntry with
      | none => return none
      | some baseRaw =>
        let worthIt := sampledVerdict.getD (Delta.paysOff baseRaw w.data algo maxRatio itemsize)
        match if worthIt then Delta.computeDelta baseRaw w.data else none with
        | none => return none
        | some xorDelta =>
          let shuffled := decide (itemsize > 1)
          let toCompress := if shuffled then Shuffle.shuffle xorDelta itemsize else xorDelta
          let compressed ← Compression.compress toCompress algo
          return some (stored tensor w .deltaXor shuffled (some compressed))
  else return none

def makeFullEntry (tensor : TensorData) (w : Working) (algo : CompressionAlgo) :
    Except MoonclipError ProcessedTensor := do
  let compressed ← Compression.compress w.data algo
  return stored tensor w .full false (some compressed)

/-- Cast, compare with the base, and decide between skip, delta and full. -/
def processTensor (files : Files) (base : Option BaseCache) (algo : CompressionAlgo)
    (maxRatio : Float) (saveDtype : DTypePolicy) (tensor : TensorData) :
    Except MoonclipError ProcessedTensor := do
  let w ← workingCopy tensor saveDtype
  match base.bind fun cache => cache.entries[tensor.name]?.map (cache, ·) with
  | none => makeFullEntry tensor w algo
  | some (cache, baseEntry) =>
    if baseEntry.hashRaw = hashHex w.data then return stored tensor w .skipped false none
    else match ← tryDelta files cache baseEntry tensor w algo maxRatio with
      | some delta => return delta
      | none => makeFullEntry tensor w algo

end Tensor

/-- Where one tensor's compressed bytes are to come from. -/
inductive PackSource where
  | whole (bytes : Bytes)
  | ranged (path : Path)
  | perFile

/-- What a base-entry lookup answers with. -/
structure BaseEntry where
  entry : TensorEntry
  compression : CompressionAlgo
  pack : PackSource

namespace Tensor
variable [Zstd] [Xxh3]

/-- Extract compressed bytes for a tensor: from the pack, or from the file of
its own an older store gave it. -/
def extractCompressed (files : Files) (entry : TensorEntry) :
    PackSource → Except MoonclipError Bytes
  | .whole bytes =>
    if entry.offset + entry.compressedSize ≤ bytes.length then
      .ok ((bytes.drop entry.offset).take entry.compressedSize)
    else fromFile
  | .ranged path => do
    let data ← Storage.getRange files path entry.offset entry.compressedSize
    if data.length = entry.compressedSize then return data
    else throw (.storage ("Tensor '" ++ entry.name ++ "' wanted " ++ toString entry.compressedSize ++
      " bytes at offset " ++ toString entry.offset ++ " of '" ++ path.text ++ "', got " ++
      toString data.length))
  | .perFile => fromFile
where
  fromFile : Except MoonclipError Bytes :=
    match entry.filename with
    | none => .error (.notFound ("No filename for tensor '" ++ entry.name ++ "'"))
    | some filename => truncateTo entry.compressedSize <$> Storage.get files filename

/-- Follow aliases in the base; the bound is for a manifest in which they turn
in a circle. -/
def resolveBaseEntry (baseId : Uuid) (name : String)
    (findBaseEntry : String → Except MoonclipError BaseEntry) : Except MoonclipError BaseEntry :=
  go 8 name
where
  go : Nat → String → Except MoonclipError BaseEntry
    | 0, _ => .error (.delta ("Alias chain starting at '" ++ name ++ "' in base snapshot " ++
        uuidText baseId ++ " does not end"))
    | hops + 1, current => do
      let found ← findBaseEntry current
      if found.entry.storage ≠ .aliased then return found
      else match found.entry.aliasOf with
        | some target => go hops target
        | none => throw (.notFound ("Alias '" ++ current ++ "' in the base has no target"))

/-- The bytes of a full entry, checked against the hash of what was stored. -/
def loadFull (files : Files) (entry : TensorEntry) (algo : CompressionAlgo) (pack : PackSource) :
    Except MoonclipError Bytes := do
  let compressed ← extractCompressed files entry pack
  match entry.hashCompressed with
  | some expected =>
    if hashHex compressed ≠ expected then throw (.integrity expected (hashHex compressed))
    else Compression.decompress compressed algo
  | none => Compression.decompress compressed algo

/-- The XOR stored for a delta entry. -/
def loadXor (files : Files) (entry : TensorEntry) (algo : CompressionAlgo) (pack : PackSource) :
    Except MoonclipError Bytes := do
  let compressed ← extractCompressed files entry pack
  let deltaData ← Compression.decompress compressed algo
  return if entry.shuffled then
    Shuffle.unshuffle deltaData (Shuffle.elementSize entry.dtype) else deltaData

/-- Load raw bytes without uncasting, given how to read the base's bytes for a
tensor, if there is a base. -/
def loadRawWith (baseRaw : Option (String → Except MoonclipError Bytes)) (files : Files)
    (entry : TensorEntry) (algo : CompressionAlgo) (pack : PackSource) :
    Except MoonclipError Bytes :=
  match entry.storage with
  | .aliased => .error (.notFound ("Tensor '" ++ entry.name ++ "' is an alias of '" ++
      entry.aliasOf.getD "?" ++ "' and must be resolved after the snapshot's other tensors"))
  | .skipped =>
    match baseRaw with
    | none => .error (.delta ("Tensor '" ++ entry.name ++ "' is skipped but snapshot has no base"))
    | some baseRaw => baseRaw entry.name
  | .full => loadFull files entry algo pack
  | .deltaXor => do
    let deltaData ← loadXor files entry algo pack
    match baseRaw with
    | none => throw (.delta ("Delta tensor '" ++ entry.name ++ "' has no base snapshot"))
    | some baseRaw =>
      let base ← baseRaw entry.name
      let raw ← Delta.applyDelta base deltaData
      if hashHex raw ≠ entry.hashRaw then throw (.integrity entry.hashRaw (hashHex raw))
      else return raw

/-- The base's bytes for a tensor. An entry of a base is read as if it had none
of its own. -/
def loadBaseRaw (files : Files) (baseId : Uuid)
    (findBaseEntry : String → Except MoonclipError BaseEntry) (name : String) :
    Except MoonclipError Bytes := do
  let found ← resolveBaseEntry baseId name findBaseEntry
  loadRawWith none files found.entry found.compression found.pack

def loadTensorRaw (files : Files) (snapBaseId : Option Uuid) (algo : CompressionAlgo)
    (pack : PackSource) (findBaseEntry : Uuid → String → Except MoonclipError BaseEntry)
    (entry : TensorEntry) : Except MoonclipError Bytes :=
  loadRawWith (snapBaseId.map fun id => loadBaseRaw files id (findBaseEntry id)) files entry algo
    pack

/-- Undo the cast a save made, if it made one. -/
def uncast (entry : TensorEntry) (raw : Bytes) : Except MoonclipError Bytes :=
  match entry.originalDtype with
  | some origDtype =>
    if origDtype ≠ entry.dtype then
      Cast.uncastTensor raw entry.dtype origDtype entry.quantScale
    else .ok raw
  | none => .ok raw

/-- Load a tensor's bytes, resolving its delta and undoing its cast. -/
def loadTensor (files : Files) (snapBaseId : Option Uuid) (algo : CompressionAlgo)
    (pack : PackSource) (findBaseEntry : Uuid → String → Except MoonclipError BaseEntry)
    (entry : TensorEntry) : Except MoonclipError Bytes := do
  let raw ← loadTensorRaw files snapBaseId algo pack findBaseEntry entry
  uncast entry raw

end Tensor
end Moonclip
