import Moonclip.DtypeRules
import Moonclip.Merger

/-! Where the blobs of a pack lie: behind the header, one after another, before the
description, each where its entry says. -/
namespace Moonclip
open Library.Codec Library.Outcome

/-- Whether an entry has bytes of its own in the pack. -/
def TensorEntry.hasBytes (e : TensorEntry) : Bool := e.storage == .full || e.storage == .deltaXor

/-- An entry tells of the bytes written for it, and only then. -/
structure Matches [Xxh3] (pt : ProcessedTensor) : Prop where
  written : pt.writeData.isSome = pt.entry.hasBytes
  measured : ∀ blob, pt.writeData = some blob → pt.entry.compressedSize = blob.length ∧
    pt.entry.hashCompressed = some (hashHex blob)

/-- A pack of these tensors: each entry's range is behind the header, before the
description the header points at, holds the entry's blob and meets no other's. -/
structure LaidOut (pack : Bytes) (pts : List ProcessedTensor) (entries : List TensorEntry) : Prop where
  bounds : ∃ trailer length, Pack.decodeHeader (pack.take Pack.headerLen) = some (trailer, length) ∧
    trailer + length ≤ pack.length ∧ ∀ e ∈ entries, e.hasBytes = true →
      Pack.headerLen ≤ e.offset ∧ e.offset + e.compressedSize ≤ trailer
  blobs : List.Forall₂ (fun pt e => (∃ offset, e = { pt.entry with offset := offset }) ∧
    pt.writeData = if e.hasBytes then some ((pack.drop e.offset).take e.compressedSize) else none) pts entries
  apart : (entries.filter (·.hasBytes)).Pairwise fun e f => e.offset + e.compressedSize ≤ f.offset

namespace Tensor
variable [Xxh3] {t : TensorData} {w : Working} {pt : ProcessedTensor}

theorem Stores.matched (stores : Stores t w pt) : Matches pt := by
  cases stores with
  | bytes storage shuffled blob kind =>
    constructor
    · rcases kind with rfl | rfl <;> rfl
    · rintro _ same
      obtain rfl := Option.some.inj same
      exact ⟨rfl, rfl⟩
  | skipped => exact ⟨rfl, by simp [stored]⟩

end Tensor

namespace Coordinator

section
variable [Xxh3] {pts : List ProcessedTensor} {offset : Nat}

theorem matches_alias {t : TensorData} {target : TensorEntry} :
    Matches ⟨Tensor.makeAliasEntry t target, none⟩ :=
  ⟨rfl, by simp⟩

theorem matches_processAll [Zstd] {cfg : Config} {files : Files} {cache : Option BaseCache}
    {tensors : List TensorData} (made : processAll cfg files cache tensors = .ok pts) :
    ∀ pt ∈ pts, Matches pt := by
  simp only [processAll, bind_eq_ok, pure_eq_ok, mapM_eq_ok] at made
  obtain ⟨processed, done, rfl⟩ := made
  intro pt there
  rcases List.mem_append.mp there with own | shared
  · obtain ⟨t, _, ran⟩ := exists_item done own
    obtain ⟨w, _, stores⟩ := Tensor.processTensor_stores ran
    exact stores.matched
  · obtain ⟨e, listed, rfl⟩ := List.mem_map.mp shared
    obtain ⟨⟨t, owner⟩, _, aliased⟩ := List.mem_filterMap.mp listed
    simp only [Option.bind_eq_bind, Option.bind_eq_some_iff, Option.pure_def, Option.some.injEq] at aliased
    obtain ⟨_, _, target, _, rfl⟩ := aliased
    exact matches_alias

/-- Each blob starts where the one before it ends. -/
theorem assignOffsets_run (offset : Nat) (each : ∀ pt ∈ pts, Matches pt) :
    (∀ e ∈ (assignOffsets offset pts).map (·.entry), e.hasBytes = true →
      offset ≤ e.offset ∧ e.offset + e.compressedSize ≤ offset + ((blobsOf pts).map List.length).sum) ∧
    (((assignOffsets offset pts).map (·.entry)).filter (·.hasBytes)).Pairwise
      fun e f => e.offset + e.compressedSize ≤ f.offset := by
  induction pts generalizing offset with
  | nil => simp [assignOffsets]
  | cons pt rest ih =>
    have matched : Matches pt := each pt (by simp)
    have others : ∀ pt ∈ rest, Matches pt := fun p there => each p (by simp [there])
    cases written : pt.writeData with
    | none =>
      have bare : pt.entry.hasBytes = false := by simpa [written] using matched.written.symm
      have later := @ih offset others
      simpa [assignOffsets, blobsOf, written, bare] using later
    | some blob =>
      have size := (matched.measured blob written).1
      obtain ⟨within, apart⟩ := @ih (offset + blob.length) others
      have total : ((blobsOf (pt :: rest)).map List.length).sum =
          blob.length + ((blobsOf rest).map List.length).sum := by
        simp [blobsOf, written]
      simp only [assignOffsets, written, List.map_cons]
      constructor
      · intro e there bytes
        rcases List.mem_cons.mp there with rfl | later
        · dsimp only
          omega
        · obtain ⟨low, high⟩ := within e later bytes
          omega
      · rw [List.filter_cons]
        split
        · apply List.Pairwise.cons _ apart
          intro f there
          obtain ⟨later, bytes⟩ := List.mem_filter.mp there
          have low := (within f later bytes).1
          dsimp only
          omega
        · exact apart

end

variable [Xxh3] [SerdeJson] {descriptor : PackDescriptor} {pts : List ProcessedTensor} {parts : List Bytes}
  {page : Nat}

/-- The parts of a pack, put one after another, are laid out as the entries say. -/
theorem laidOut_pack (each : ∀ pt ∈ pts, Matches pt)
    (made : packParts descriptor (blobsOf (assignOffsets Pack.headerLen pts)) = .ok parts)
    (fits : (pad page parts.flatten).length < 2 ^ 64) :
    LaidOut (pad page parts.flatten) pts ((assignOffsets Pack.headerLen pts).map (·.entry)) := by
  rw [blobsOf_assignOffsets] at made
  obtain ⟨encoded, header, text, head, laid⟩ := packParts_eq_ok made
  obtain ⟨_, trailer, text', size, decoded, _⟩ := pack_reads made fits
  obtain rfl := Except.ok.inj (text.symm.trans text')
  obtain ⟨n, filled⟩ := pad_eq page parts.flatten
  have long : header.length = Pack.headerLen := by rw [head, Pack.length_encodeHeader]
  have place : trailer = Pack.headerLen + ((blobsOf pts).map List.length).sum := by
    rw [laid] at size
    simp only [List.length_append, List.length_flatten, long] at size
    omega
  obtain ⟨within, apart⟩ := assignOffsets_run Pack.headerLen each
  constructor
  · refine ⟨trailer, _, decoded, ?_, ?_⟩
    · rw [filled, List.length_append]
      omega
    · rw [place]
      exact within
  · have whole : pad page parts.flatten = header ++ (blobsOf pts).flatten ++
      (encoded ++ List.replicate n 0) := by
      rw [filled, laid]
      simp
    have placed := assignOffsets_placed whole
    rw [long] at placed
    rw [List.forall₂_map_right_iff]
    refine ((List.forall₂_and_left _ _).mpr ⟨each, placed⟩).imp fun pt placed both => ?_
    obtain ⟨matched, place⟩ := both
    obtain ⟨offset, same⟩ := place.entry
    refine ⟨⟨offset, same⟩, ?_⟩
    have bytes : placed.entry.hasBytes = pt.writeData.isSome := by
      rw [matched.written, same]
      rfl
    rw [bytes]
    cases written : pt.writeData with
    | none => rfl
    | some blob =>
      have measured : placed.entry.compressedSize = blob.length := by
        rw [same]
        exact (matched.measured blob written).1
      rw [measured, (place.lies blob written).slice]
      rfl
  · exact apart

end Coordinator

namespace Merger
variable [Zstd] [Xxh3] {files : Files} {base source : Snapshot} {rank : Nat} {algo : CompressionAlgo}
  {e : TensorEntry} {pt : ProcessedTensor}

theorem matches_mergeTensor (made : mergeTensor files base source rank algo e = .ok pt) : Matches pt := by
  unfold mergeTensor at made
  split at made
  · rename_i aliased
    obtain rfl := Except.ok.inj made
    exact ⟨by simp [TensorEntry.hasBytes, aliased], by simp⟩
  · simp only [bind_eq_ok, pure_eq_ok] at made
    obtain ⟨data, _, compressed, _, rfl⟩ := made
    constructor
    · rfl
    · rintro _ same
      obtain rfl := Option.some.inj same
      exact ⟨rfl, rfl⟩

end Merger
end Moonclip
