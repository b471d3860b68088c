import Std.Data.ExtTreeMap.Lemmas
import Mathlib.Algebra.GroupWithZero.Nat
import Mathlib.Data.List.Basic

/-! The vocabulary every layer shares: bytes, snapshot identifiers, the paths a
store uses and the errors it reports. -/
namespace Moonclip

abbrev Bytes := List UInt8

/-- A `uuid::Uuid`. -/
abbrev Uuid := BitVec 128

instance : LawfulBEq Uuid := inferInstance

instance : LawfulBEq (List Uuid) := inferInstance

def hexDigits (width value : Nat) : String :=
  String.ofList ((List.range width).reverse.map fun i => Nat.digitChar (value / 16 ^ i % 16))

/-- The hash the crate links against. -/
class Xxh3 where
  xxh3_128 : Bytes → BitVec 128

def hashHex [Xxh3] (data : Bytes) : String := hexDigits 32 (Xxh3.xxh3_128 data).toNat

/-- The hyphenated form `Uuid::to_string` prints. -/
def uuidText (id : Uuid) : String :=
  hexDigits 8 (id.toNat / 2 ^ 96) ++ "-" ++ hexDigits 4 (id.toNat / 2 ^ 80) ++ "-" ++
    hexDigits 4 (id.toNat / 2 ^ 64) ++ "-" ++ hexDigits 4 (id.toNat / 2 ^ 48) ++ "-" ++
    hexDigits 12 id.toNat

/-- The directories under `snapshots/`: one named by the printed form of an
identifier, one `Uuid::parse_str` reads but nothing here would print, and one
it does not read at all. -/
inductive Directory where
  | uuid (id : Uuid)
  | variant (name : String)
  | foreign (name : String)
deriving DecidableEq, Repr

/-- The files of a snapshot directory: `rank_<r>.pack`, `ranks.json`, others. -/
inductive FileName where
  | rankPack (rank : Nat)
  | ranksJson
  | other (name : String)
deriving DecidableEq, Repr

/-- A path relative to the root of a store. A plain file that lies where the
directories under `snapshots/` do is `loose`. -/
inductive Path where
  | manifestJson
  | pinsJson
  | snapshots (dir : Directory) (file : FileName)
  | loose (dir : Directory)
  | other (name : String)
deriving DecidableEq, Repr

def Directory.text : Directory → String
  | .uuid id => uuidText id
  | .variant name | .foreign name => name

def FileName.text : FileName → String
  | .rankPack rank => "rank_" ++ toString rank ++ ".pack"
  | .ranksJson => "ranks.json"
  | .other name => name

def Path.text : Path → String
  | .manifestJson => "manifest.json"
  | .pinsJson => "pins.json"
  | .snapshots dir file => "snapshots/" ++ dir.text ++ "/" ++ file.text
  | .loose dir => "snapshots/" ++ dir.text
  | .other name => name

/-- `ends_with(".pack")` on the last component. -/
def FileName.isPack : FileName → Bool
  | .rankPack _ => true
  | .ranksJson => false
  | .other name => name.endsWith ".pack"

/-- The first name behind `snapshots/` is this one. -/
def Path.under (dir : Directory) : Path → Bool
  | .snapshots d _ => d == dir
  | .loose d => d == dir
  | _ => false

/-- The directory of snapshot `id` holds this file. -/
def Path.belongsTo (id : Uuid) : Path → Bool
  | .snapshots dir _ => dir == .uuid id
  | _ => false

def packPath (id : Uuid) (rank : Nat) : Path := .snapshots (.uuid id) (.rankPack rank)

/-- Where `id`'s ranks are kept once it is finalised. -/
def ranksPath (id : Uuid) : Path := .snapshots (.uuid id) .ranksJson

theorem Path.under_iff {dir : Directory} {p : Path} :
    p.under dir = true ↔ p = .loose dir ∨ ∃ file, p = .snapshots dir file := by
  cases p <;> simp [Path.under]

section
variable {id id' : Uuid} {rank rank' : Nat}

@[simp] theorem packPath_inj : packPath id rank = packPath id' rank' ↔ id = id' ∧ rank = rank' := by
  simp [packPath]

@[simp] theorem ranksPath_inj : ranksPath id = ranksPath id' ↔ id = id' := by
  simp [ranksPath]

@[simp] theorem packPath_ne_ranksPath : packPath id rank ≠ ranksPath id' := by
  simp [packPath, ranksPath]

@[simp] theorem belongsTo_packPath : (packPath id rank).belongsTo id' = decide (id = id') := by
  simp [packPath, Path.belongsTo, BEq.beq]

@[simp] theorem belongsTo_ranksPath : (ranksPath id).belongsTo id' = decide (id = id') := by
  simp [ranksPath, Path.belongsTo, BEq.beq]

end

/-- The errors of the source, and a panic that goes on to whoever made the call. -/
inductive MoonclipError where
  | io (message : String)
  | serialization (message : String)
  | compression (message : String)
  | notFound (message : String)
  | integrity (expected actual : String)
  | delta (message : String)
  | storage (message : String)
  | config (message : String)
  | panicked (message : String)
deriving DecidableEq, Repr

/-- Whether this is how a call ends: in a panic. -/
def panics {α : Type} : Except MoonclipError α → Bool
  | .error (.panicked _) => true
  | _ => false

end Moonclip
