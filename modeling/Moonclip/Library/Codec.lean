import Mathlib.Algebra.Group.Nat.Defs
import Mathlib.Data.List.DropRight
import Mathlib.Data.List.Nodup

/-! Bytes as they lie in files: little-endian numbers, zeros that pad a file, and
serializers whose text no padding can be taken for. -/
namespace Library.Codec

/-- The `width` low bytes of `value`, least significant first. -/
def leBytes : Nat → Nat → List UInt8
  | 0, _ => []
  | width + 1, value => UInt8.ofNat value :: leBytes width (value / 256)

def ofLeBytes : List UInt8 → Nat
  | [] => 0
  | byte :: rest => byte.toNat + 256 * ofLeBytes rest

@[simp] theorem length_leBytes : (leBytes width value).length = width := by
  induction width generalizing value with
  | zero => rfl
  | succ width ih => simp [leBytes, ih]

theorem ofLeBytes_leBytes (fits : value < 256 ^ width) : ofLeBytes (leBytes width value) = value := by
  induction width generalizing value with
  | zero => simp_all [leBytes, ofLeBytes]
  | succ width ih =>
    have rest : value / 256 < 256 ^ width := Nat.div_lt_of_lt_mul (by rwa [Nat.pow_succ'] at fits)
    simp only [leBytes, ofLeBytes, ih rest, UInt8.toNat_ofNat']
    omega

theorem ofLeBytes_lt (data : List UInt8) : ofLeBytes data < 256 ^ data.length := by
  induction data with
  | nil => simp [ofLeBytes]
  | cons byte rest ih =>
    have small := byte.toNat_lt
    rw [ofLeBytes, List.length_cons, Nat.pow_succ]
    omega

theorem leBytes_ofLeBytes (data : List UInt8) : leBytes data.length (ofLeBytes data) = data := by
  induction data with
  | nil => rfl
  | cons byte rest ih =>
    have small := byte.toNat_lt
    have high : (byte.toNat + 256 * ofLeBytes rest) / 256 = ofLeBytes rest := by omega
    have low : UInt8.ofNat (byte.toNat + 256 * ofLeBytes rest) = byte := by
      apply UInt8.toNat_inj.mp
      rw [UInt8.toNat_ofNat']
      omega
    rw [List.length_cons, ofLeBytes, leBytes, high, ih, low]

/-- A file filled up with zeros to a multiple of `page`; `0` fills nothing. -/
def pad (page : Nat) (data : List UInt8) : List UInt8 :=
  if page > 0 ∧ data.length % page ≠ 0 then
    data ++ List.replicate (page - data.length % page) 0
  else data

/-- What comes before the trailing zeros. -/
def trimZeros (data : List UInt8) : List UInt8 := data.rdropWhile (· == 0)

/-- Text that does not end in a zero byte. -/
def Closed (data : List UInt8) : Prop := ∃ last ∈ data.getLast?, last ≠ 0

theorem pad_eq (page : Nat) (data : List UInt8) :
    ∃ n, pad page data = data ++ List.replicate n 0 := by
  unfold pad
  split
  · exact ⟨_, rfl⟩
  · exact ⟨0, by simp⟩

theorem trimZeros_append (closed : Closed data) (n : Nat) :
    trimZeros (data ++ List.replicate n 0) = data := by
  induction n with
  | zero =>
    obtain ⟨last, ends, nonzero⟩ := closed
    have present : data ≠ [] := by
      rintro rfl
      simp at ends
    have last_eq : data.getLast present = last := by
      simpa [List.getLast?_eq_some_getLast present] using ends
    simpa [trimZeros, List.rdropWhile_eq_self_iff, last_eq] using fun _ => nonzero
  | succ n ih =>
    rw [List.replicate_succ', ← List.append_assoc, trimZeros, List.rdropWhile_concat_pos _ _ _ rfl]
    exact ih

@[simp] theorem trimZeros_pad (closed : Closed data) : trimZeros (pad page data) = data := by
  obtain ⟨n, filled⟩ := pad_eq page data
  rw [filled, trimZeros_append closed]

/-- `blob` lies at `offset` in `body`. -/
def Lies (body : List UInt8) (offset : Nat) (blob : List UInt8) : Prop :=
  ∃ before after, body = before ++ blob ++ after ∧ before.length = offset

section
variable {body blob : List UInt8} {offset : Nat}

theorem Lies.within (lies : Lies body offset blob) : offset + blob.length ≤ body.length := by
  obtain ⟨before, after, rfl, rfl⟩ := lies
  simp

theorem Lies.slice (lies : Lies body offset blob) : (body.drop offset).take blob.length = blob := by
  obtain ⟨before, after, rfl, rfl⟩ := lies
  simp [List.append_assoc]

theorem Lies.append (lies : Lies body offset blob) (rest : List UInt8) :
    Lies (body ++ rest) offset blob := by
  obtain ⟨before, after, rfl, rfl⟩ := lies
  exact ⟨before, after ++ rest, by simp, rfl⟩

theorem Lies.pad (lies : Lies body offset blob) (page : Nat) : Lies (pad page body) offset blob := by
  obtain ⟨n, filled⟩ := pad_eq page body
  exact filled ▸ lies.append _

end

/-- A text format for values of `α`. -/
structure Serializer (α : Type) where
  toVec : α → Except String (List UInt8)
  fromSlice : List UInt8 → Except String α

/-- What is written is read back, and padding is not taken for part of it. -/
class Serializer.Lawful (format : Serializer α) : Prop where
  roundTrip {value : α} {text : List UInt8} :
    format.toVec value = .ok text → format.fromSlice text = .ok value
  closed {value : α} {text : List UInt8} : format.toVec value = .ok text → Closed text

namespace Serializer
variable {α : Type} [DecidableEq α] {rows : List (α × List UInt8)}

/-- The format of the values listed, each with its text. -/
def table (rows : List (α × List UInt8)) : Serializer α where
  toVec value :=
    match rows.find? (·.1 = value) with
    | some row => .ok row.2
    | none => .error "not a value of this table"
  fromSlice text :=
    match rows.find? (·.2 = text) with
    | some row => .ok row.1
    | none => .error "not a text of this table"

theorem table_toVec {value : α} (listed : value ∈ rows.map Prod.fst) :
    ∃ text, (table rows).toVec value = .ok text := by
  obtain ⟨row, present, rfl⟩ := List.mem_map.mp listed
  simp only [table]
  cases found : rows.find? (·.1 = row.1) with
  | some other => exact ⟨other.2, rfl⟩
  | none => simpa using List.find?_eq_none.mp found row present

theorem mem_of_table_toVec {value : α} (written : (table rows).toVec value = .ok text) :
    (value, text) ∈ rows := by
  simp only [table] at written
  cases found : rows.find? (·.1 = value) with
  | none => simp [found] at written
  | some row =>
    have same : row.1 = value := by simpa using List.find?_some found
    have body : row.2 = text := by simpa [found] using written
    obtain rfl : row = (value, text) := Prod.ext same body
    exact List.mem_of_find?_eq_some found

theorem table_lawful (distinct : (rows.map Prod.snd).Nodup) (closed : ∀ row ∈ rows, Closed row.2) :
    (table rows).Lawful where
  roundTrip := by
    intro value text written
    have listed := mem_of_table_toVec written
    simp only [table]
    cases found : rows.find? (·.2 = text) with
    | none => simpa using List.find?_eq_none.mp found _ listed
    | some row =>
      have same : row.2 = text := by simpa using List.find?_some found
      have one := List.inj_on_of_nodup_map distinct (List.mem_of_find?_eq_some found) listed same
      simp [one]
  closed written := closed _ (mem_of_table_toVec written)

end Serializer
end Library.Codec
