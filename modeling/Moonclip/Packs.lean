import Moonclip.Recovery

/-! What a pack holds: every blob where its entry says, and at the end the
description it can be rebuilt from. -/
namespace Moonclip
open Library.Codec Library.Outcome

namespace Coordinator

/-- What placing changes of a tensor: its offset, so that the entry says where
in `body` the blob lies. -/
structure Placed (body : Bytes) (pt placed : ProcessedTensor) : Prop where
  writeData : placed.writeData = pt.writeData
  entry : ∃ offset, placed.entry = { pt.entry with offset := offset }
  lies : ∀ blob, pt.writeData = some blob → Lies body placed.entry.offset blob

theorem assignOffsets_placed {body before rest : Bytes} {pts : List ProcessedTensor}
    (laid : body = before ++ (blobsOf pts).flatten ++ rest) :
    List.Forall₂ (Placed body) pts (assignOffsets before.length pts) := by
  induction pts generalizing before with
  | nil => exact .nil
  | cons pt others ih =>
    cases written : pt.writeData with
    | none =>
      have later := @ih before (by simpa [blobsOf, written] using laid)
      simp only [assignOffsets, written]
      exact .cons ⟨rfl, ⟨_, rfl⟩, by simp [written]⟩ later
    | some blob =>
      have next : body = before ++ blob ++ (blobsOf others).flatten ++ rest := by
        simpa [blobsOf, written] using laid
      have later := ih next
      rw [List.length_append] at later
      simp only [assignOffsets, written]
      refine .cons ⟨written.symm, ⟨_, rfl⟩, ?_⟩ later
      rintro _ same
      obtain rfl : blob = _ := by simpa [written] using same
      exact ⟨before, (blobsOf others).flatten ++ rest, by simp [next], rfl⟩

theorem blobsOf_assignOffsets {offset : Nat} {pts : List ProcessedTensor} :
    blobsOf (assignOffsets offset pts) = blobsOf pts := by
  induction pts generalizing offset with
  | nil => rfl
  | cons pt rest ih =>
    cases written : pt.writeData with
    | none =>
      have later := @ih offset
      simp only [blobsOf] at later
      simp [assignOffsets, blobsOf, written, later]
    | some blob =>
      have later := @ih (offset + blob.length)
      simp only [blobsOf] at later
      simp [assignOffsets, blobsOf, written, later]

section
variable [SerdeJson] {descriptor : PackDescriptor} {blobs parts : List Bytes}

theorem packParts_eq_ok (made : packParts descriptor blobs = .ok parts) :
    ∃ encoded header, SerdeJson.descriptor.toVec descriptor = .ok encoded ∧
      header = Pack.encodeHeader (Pack.headerLen + (blobs.map List.length).sum) encoded.length ∧
      parts.flatten = header ++ blobs.flatten ++ encoded := by
  simp only [packParts, bind_eq_ok, mapError_eq_ok, pure_eq_ok] at made
  obtain ⟨encoded, written, rfl⟩ := made
  exact ⟨encoded, _, written, rfl, by simp⟩

/-- The header of a pack says where its description lies. -/
theorem pack_reads {page : Nat} (made : packParts descriptor blobs = .ok parts)
    (fits : (pad page parts.flatten).length < 2 ^ 64) :
    ∃ encoded offset, SerdeJson.descriptor.toVec descriptor = .ok encoded ∧
      parts.flatten.length = offset + encoded.length ∧
      Pack.decodeHeader ((pad page parts.flatten).take Pack.headerLen) = some (offset, encoded.length) ∧
      ((pad page parts.flatten).drop offset).take encoded.length = encoded := by
  obtain ⟨encoded, header, written, head, laid⟩ := packParts_eq_ok made
  have size : header.length = Pack.headerLen := by rw [head, Pack.length_encodeHeader]
  have headAt : Lies parts.flatten 0 header := ⟨[], blobs.flatten ++ encoded, by simp [laid], rfl⟩
  have textAt : Lies parts.flatten (Pack.headerLen + (blobs.map List.length).sum) encoded :=
    ⟨header ++ blobs.flatten, [], by simp [laid], by simp [size]⟩
  have within := (textAt.pad page).within
  have decoded := @Pack.decodeHeader_encodeHeader (Pack.headerLen + (blobs.map List.length).sum)
    encoded.length (by omega) (by omega)
  have headSlice := (headAt.pad page).slice
  rw [size, List.drop_zero] at headSlice
  refine ⟨encoded, _, written, ?_, ?_, (textAt.pad page).slice⟩
  · simp [laid, size]
    omega
  · rw [headSlice, head, decoded]

/-- What a stored pack's header names is read back whole. -/
theorem getRange_pack {files : Files} {page : Nat} {file : Path}
    (made : packParts descriptor blobs = .ok parts)
    (stored : files.find? file = some (pad page parts.flatten))
    (fits : (pad page parts.flatten).length < 2 ^ 64) :
    ∃ encoded header offset, SerdeJson.descriptor.toVec descriptor = .ok encoded ∧
      Storage.getRange files file 0 Pack.headerLen = .ok header ∧
      Pack.decodeHeader header = some (offset, encoded.length) ∧
      Storage.getRange files file offset encoded.length = .ok encoded := by
  obtain ⟨encoded, offset, written, laid, decoded, slice⟩ := pack_reads made fits
  have within : offset + encoded.length ≤ (pad page parts.flatten).length := by
    obtain ⟨n, filled⟩ := pad_eq page parts.flatten
    rw [filled, List.length_append]
    omega
  refine ⟨encoded, _, offset, written, Storage.getRange_of_le stored (Nat.zero_le _) ?_, ?_, ?_⟩
  · exact le_max_of_le_left (by decide)
  · rw [List.drop_zero, decoded]
  · rw [Storage.getRange_within stored within, slice]

/-- A pack on disk gives back the description it was written with. -/
theorem descriptorOf_pack [LawfulSerdeJson] {files : Files} {page rank : Nat}
    (made : packParts descriptor blobs = .ok parts)
    (stored : files.find? (packPath descriptor.snapshotId rank) = some (pad page parts.flatten))
    (fits : (pad page parts.flatten).length < 2 ^ 64) :
    Recovery.descriptorOf files (.uuid descriptor.snapshotId) (packPath descriptor.snapshotId rank) =
      some descriptor := by
  obtain ⟨encoded, header, offset, written, head, decoded, text⟩ := getRange_pack made stored fits
  have read := LawfulSerdeJson.descriptor.roundTrip written
  simp only [Recovery.descriptorOf, head, text, bind, Except.toOption, Option.bind_some, decoded, read]
  simp

end
end Coordinator
end Moonclip
