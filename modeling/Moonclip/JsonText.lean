import Moonclip.ManifestIo

/-! The JSON the store writes, as `serde_json` prints it: compact, fields in the
order they are declared, a missing option `null` unless the field is skipped. -/
namespace Moonclip
open Library.Codec

namespace Json

def text (s : String) : Bytes := s.toUTF8.toList

/-- The escapes JSON requires, and no others. -/
def escaped (b : UInt8) : Bytes :=
  if b = 0x22 then [0x5C, 0x22]
  else if b = 0x5C then [0x5C, 0x5C]
  else if b = 0x0A then text "\\n"
  else if b = 0x0D then text "\\r"
  else if b = 0x09 then text "\\t"
  else if b = 0x08 then text "\\b"
  else if b = 0x0C then text "\\f"
  else if b < 0x20 then text ("\\u" ++ hexDigits 4 b.toNat)
  else [b]

def quoted (s : String) : Bytes := 0x22 :: (text s).flatMap escaped ++ [0x22]

def nat (n : Nat) : Bytes := text (toString n)
def int (n : Int) : Bytes := text (toString n)
def bool (b : Bool) : Bytes := text (if b then "true" else "false")
def nullable (value : α → Bytes) (o : Option α) : Bytes := (o.map value).getD (text "null")

def separated : List Bytes → Bytes
  | [] => []
  | [item] => item
  | item :: rest => item ++ 0x2C :: separated rest

def array (items : List Bytes) : Bytes := 0x5B :: separated items ++ [0x5D]

def object (fields : List (String × Bytes)) : Bytes :=
  0x7B :: separated (fields.map fun (key, value) => quoted key ++ 0x3A :: value) ++ [0x7D]

end Json

namespace JsonText
open Json

def decimal (width value : Nat) : String :=
  String.ofList ((List.range width).reverse.map fun i => Nat.digitChar (value / 10 ^ i % 10))

/-- Days since 1970-01-01 as year, month and day. -/
def civil (days : Nat) : Nat × Nat × Nat :=
  let z := days + 719468
  let dayOfEra := z % 146097
  let yearOfEra := (dayOfEra - dayOfEra / 1460 + dayOfEra / 36524 - dayOfEra / 146096) / 365
  let dayOfYear := dayOfEra - (365 * yearOfEra + yearOfEra / 4 - yearOfEra / 100)
  let shifted := (5 * dayOfYear + 2) / 153
  let month := if shifted < 10 then shifted + 3 else shifted - 9
  let year := yearOfEra + z / 146097 * 400 + if month ≤ 2 then 1 else 0
  (year, month, dayOfYear - (153 * shifted + 2) / 5 + 1)

/-- A `DateTime<Utc>`, given in nanoseconds since 1970. -/
def dateTime (nanos : Nat) : Bytes :=
  let secs := nanos / 10 ^ 9
  let (year, month, day) := civil (secs / 86400)
  let sub := nanos % 10 ^ 9
  let fraction :=
    if sub = 0 then ""
    else if sub % 10 ^ 6 = 0 then "." ++ decimal 3 (sub / 10 ^ 6)
    else if sub % 10 ^ 3 = 0 then "." ++ decimal 6 (sub / 10 ^ 3)
    else "." ++ decimal 9 sub
  quoted (decimal 4 year ++ "-" ++ decimal 2 month ++ "-" ++ decimal 2 day ++ "T" ++
    decimal 2 (secs / 3600 % 24) ++ ":" ++ decimal 2 (secs / 60 % 60) ++ ":" ++
    decimal 2 (secs % 60) ++ fraction ++ "Z")

def storage : TensorStorage → Bytes
  | .full => quoted "Full"
  | .deltaXor => quoted "DeltaXor"
  | .skipped => quoted "Skipped"
  | .aliased => quoted "Alias"

def compression : CompressionAlgo → Bytes
  | .none => quoted "None"
  | .zstd level => object [("Zstd", object [("level", int level)])]

def uuid (id : Uuid) : Bytes := quoted (uuidText id)

def metadata (m : Metadata) : Bytes := object (m.toList.map fun (key, value) => (key, quoted value))

section
variable (float : FiniteF32 → Bytes)

/-- How an `f32` is printed is the serializer's own affair. -/
def tensorEntry (e : TensorEntry) : Bytes :=
  object [
    ("name", quoted e.name),
    ("shape", array (e.shape.map nat)),
    ("dtype", quoted e.dtype),
    ("original_dtype", nullable quoted e.originalDtype),
    ("quant_scale", nullable float e.quantScale),
    ("storage", storage e.storage),
    ("alias_of", nullable quoted e.aliasOf),
    ("filename", nullable (quoted ·.text) e.filename),
    ("offset", nat e.offset),
    ("compressed_size", nat e.compressedSize),
    ("raw_size", nat e.rawSize),
    ("hash_raw", quoted e.hashRaw),
    ("hash_compressed", nullable quoted e.hashCompressed),
    ("shuffled", bool e.shuffled)]

def rankEntry (r : RankEntry) : Bytes :=
  object [
    ("rank", nat r.rank),
    ("tensors", array (r.tensors.map (tensorEntry float))),
    ("pack_file", nullable (quoted ·.text) r.packFile),
    ("total_compressed", nat r.totalCompressed),
    ("total_raw", nat r.totalRaw),
    ("skipped_count", nat r.skippedCount),
    ("delta_count", nat r.deltaCount),
    ("full_count", nat r.fullCount)]

def ranks (m : RankMap) : Bytes :=
  object (m.toList.map fun (rank, entry) => (toString rank, rankEntry float entry))

def head (h : Head) : Bytes :=
  object ([("id", uuid h.id), ("step", nat h.step), ("created_at", dateTime h.createdAt)] ++
    (h.ranks.map fun r => ("ranks", ranks float r)).toList ++
    (h.ranksIn.map fun p => ("ranks_in", quoted p.text)).toList ++
    [("base_snapshot_id", nullable uuid h.baseSnapshotId),
     ("metadata", metadata h.metadata),
     ("compression", compression h.compression),
     ("finalized", bool h.finalized),
     ("pinned", bool h.pinned)])

def index (i : Index) : Bytes :=
  object [
    ("format_version", nat i.formatVersion),
    ("world_size", nat i.worldSize),
    ("snapshots", array (i.snapshots.map (head float))),
    ("retention", object [
      ("max_full_snapshots", nat i.retention.maxFullSnapshots),
      ("max_deltas_per_full", nat i.retention.maxDeltasPerFull),
      ("full_snapshot_every_steps", nat i.retention.fullSnapshotEverySteps),
      ("max_total_snapshots", nullable nat i.retention.maxTotalSnapshots)]),
    ("lineage", object [
      ("rollback_interval_steps", nat i.lineage.rollbackIntervalSteps),
      ("max_rollback_snapshots", nat i.lineage.maxRollbackSnapshots)])]

def ranksFile (f : RanksFile) : Bytes :=
  object [("snapshot_id", uuid f.snapshotId), ("ranks", ranks float f.ranks)]

def descriptor (d : PackDescriptor) : Bytes :=
  object [
    ("snapshot_id", uuid d.snapshotId),
    ("step", nat d.step),
    ("created_at", dateTime d.createdAt),
    ("base_snapshot_id", nullable uuid d.baseSnapshotId),
    ("metadata", metadata d.metadata),
    ("compression", compression d.compression),
    ("world_size", nat d.worldSize),
    ("rank", rankEntry float d.rank)]

def pins (steps : List Nat) : Bytes := array (steps.map nat)

/-- The serializer, for as many values as are listed. -/
abbrev serde (indexes : List Index) (rankFiles : List RanksFile) (descriptors : List PackDescriptor)
    (pinFiles : List (List Nat)) : SerdeJson where
  index := .table (indexes.map fun i => (i, index float i))
  ranks := .table (rankFiles.map fun f => (f, ranksFile float f))
  descriptor := .table (descriptors.map fun d => (d, descriptor float d))
  pins := .table (pinFiles.map fun p => (p, pins p))

theorem serde_descriptor {indexes : List Index} {rankFiles : List RanksFile}
    {descriptors : List PackDescriptor} {pinFiles : List (List Nat)} {d : PackDescriptor}
    (listed : d ∈ descriptors) :
    ∃ text, (serde float indexes rankFiles descriptors pinFiles).descriptor.toVec d = .ok text :=
  Serializer.table_toVec (by simpa [Function.comp_def] using listed)

theorem closed_snoc {body : Bytes} {last : UInt8} (nonzero : last ≠ 0) :
    Library.Codec.Closed (body ++ [last]) :=
  ⟨last, by simp, nonzero⟩

theorem closed_object {fields : List (String × Bytes)} : Library.Codec.Closed (object fields) :=
  @closed_snoc (0x7B :: _) _ (by decide)

theorem closed_array {items : List Bytes} : Library.Codec.Closed (array items) :=
  @closed_snoc (0x5B :: _) _ (by decide)

/-- Every text is closed by its last bracket; that no two of them agree is left
to check. -/
theorem serde_lawful {indexes : List Index} {rankFiles : List RanksFile}
    {descriptors : List PackDescriptor} {pinFiles : List (List Nat)}
    (distinctIndexes : (indexes.map (index float)).Nodup)
    (distinctRanks : (rankFiles.map (ranksFile float)).Nodup)
    (distinctDescriptors : (descriptors.map (descriptor float)).Nodup)
    (distinctPins : (pinFiles.map pins).Nodup) :
    @LawfulSerdeJson (serde float indexes rankFiles descriptors pinFiles) := by
  let _ := serde float indexes rankFiles descriptors pinFiles
  constructor
  · refine Serializer.table_lawful (by simpa [Function.comp_def] using distinctIndexes) ?_
    rintro _ listed
    obtain ⟨i, _, rfl⟩ := List.mem_map.mp listed
    exact closed_object
  · refine Serializer.table_lawful (by simpa [Function.comp_def] using distinctRanks) ?_
    rintro _ listed
    obtain ⟨f, _, rfl⟩ := List.mem_map.mp listed
    exact closed_object
  · refine Serializer.table_lawful (by simpa [Function.comp_def] using distinctDescriptors) ?_
    rintro _ listed
    obtain ⟨d, _, rfl⟩ := List.mem_map.mp listed
    exact closed_object
  · refine Serializer.table_lawful (by simpa [Function.comp_def] using distinctPins) ?_
    rintro _ listed
    obtain ⟨p, _, rfl⟩ := List.mem_map.mp listed
    exact closed_array

end
end JsonText
end Moonclip
