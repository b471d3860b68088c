import Moonclip.Assembly
import Moonclip.Layout
import Moonclip.Readmission

/-! A snapshot and the packs it was written to: rebuilt from them it is what was
listed, and where one of them is damaged it is not rebuilt at all. -/
namespace Moonclip
open Library.Codec Library.Effect Library.Files Library.Outcome Library.Tables

/-- What the pack of a rank says of its snapshot. -/
def Snapshot.describing (s : Snapshot) (worldSize : Nat) (entry : RankEntry) : PackDescriptor where
  snapshotId := s.id
  step := s.step
  createdAt := s.createdAt
  baseSnapshotId := s.baseSnapshotId
  metadata := s.metadata
  compression := s.compression
  worldSize := worldSize
  rank := entry

/-- The only packs in the directory of `id` are those of `ranks`. -/
def OnlyPacks (files : Files) (id : Uuid) (ranks : Nat → Prop) : Prop :=
  ∀ name, name.isPack = true → (files.find? (.snapshots (.uuid id) name)).isSome = true →
    ∃ r, ranks r ∧ name = .rankPack r

section
variable [SerdeJson] {files : Files} {s : Snapshot} {d : PackDescriptor} {p : Path} {r : Nat}

/-- A file is a pack with this description. -/
def HoldsPack (files : Files) (p : Path) (d : PackDescriptor) : Prop :=
  ∃ blobs parts page, Coordinator.packParts d blobs = .ok parts ∧ (pad page parts.flatten).length < 2 ^ 64 ∧
    files.find? p = some (pad page parts.flatten)

theorem HoldsPack.isSome (described : HoldsPack files p d) : (files.find? p).isSome = true := by
  obtain ⟨blobs, parts, page, _, _, stored⟩ := described
  rw [stored]
  rfl

theorem HoldsPack.read [LawfulSerdeJson] (described : HoldsPack files (packPath d.snapshotId r) d) :
    Recovery.descriptorOf files (.uuid d.snapshotId) (packPath d.snapshotId r) = some d := by
  obtain ⟨blobs, parts, page, made, fits, stored⟩ := described
  exact Coordinator.descriptorOf_pack made stored fits

namespace Recovery

/-- What recovery reads from a pack, a finalize reads too. -/
theorem shardOf_of_descriptorOf {id : Uuid} (described : descriptorOf files (.uuid id) p = some d) :
    Coordinator.shardOf files id p = .ok d.rank := by
  have own := descriptorOf_dir described
  simp only [descriptorOf, Option.bind_eq_bind, Option.bind_eq_some_iff] at described
  obtain ⟨header, head, ⟨offset, length⟩, decoded, encoded, text, described⟩ := described
  split at described
  · contradiction
  · rename_i whole
    obtain ⟨d', parsed, described⟩ := Option.bind_eq_some_iff.mp described
    split at described
    · obtain rfl := Option.some.inj described
      rw [toOption_eq_some] at head text parsed
      obtain rfl : id = d'.snapshotId := by simpa using own
      simp only [Coordinator.shardOf, head, bind, Except.bind, decoded, text, if_neg whole, parsed]
      simp [Except.mapError, pure, Except.pure]
    · contradiction

omit [SerdeJson] in
theorem mem_packs {id : Uuid} : p ∈ (filesIn files (.uuid id)).filter isPack ↔
    ∃ name, p = .snapshots (.uuid id) name ∧ name.isPack = true ∧ (files.find? p).isSome = true := by
  rw [List.mem_filter]
  constructor
  · rintro ⟨inside, pack⟩
    obtain ⟨inside, found⟩ := mem_filesIn.mp inside
    obtain rfl | ⟨name, rfl⟩ := Path.under_iff.mp inside
    · contradiction
    · exact ⟨name, rfl, pack, found⟩
  · rintro ⟨name, rfl, pack, found⟩
    exact ⟨mem_filesIn.mpr ⟨Path.under_iff.mpr (.inr ⟨name, rfl⟩), found⟩, pack⟩

omit [SerdeJson] in
/-- A finalize looks at the packs recovery looks at. -/
theorem packsOf_eq {id : Uuid} : Coordinator.packsOf files id = (filesIn files (.uuid id)).filter isPack := by
  simp only [Coordinator.packsOf, Storage.listSnapshot, filesIn, Storage.listSnapshots, List.filter_filter]
  apply List.filter_congr
  intro p _
  cases p <;> simp [Path.belongsTo, Path.under, isPack]

variable [LawfulSerdeJson]

/-- From the packs of all its ranks a snapshot is rebuilt as it was written. -/
theorem rebuildFromPacks_whole (done : s.finalized = true) (written : r ∈ s.ranks)
    (packs : ∀ r e, s.ranks[r]? = some e → e.rank = r ∧
      HoldsPack files (packPath s.id r) (s.describing s.ranks.size e))
    (only : OnlyPacks files s.id (· ∈ s.ranks)) :
    rebuildFromPacks files (.uuid s.id) (filesIn files (.uuid s.id)) = some s.unpinned := by
  have each : ∀ p ∈ (filesIn files (.uuid s.id)).filter isPack, ∃ d,
    descriptorOf files (.uuid s.id) p = some d ∧
      ∃ r e, p = packPath s.id r ∧ s.ranks[r]? = some e ∧ d = s.describing s.ranks.size e := by
    intro p there
    obtain ⟨name, rfl, pack, found⟩ := mem_packs.mp there
    obtain ⟨r, listed, rfl⟩ := only name pack found
    obtain ⟨e, entry⟩ := exists_of_mem listed
    exact ⟨_, HoldsPack.read (d := s.describing s.ranks.size e) (packs r e entry).2, r, e, rfl, entry, rfl⟩
  obtain ⟨descriptors, pairs⟩ := exists_results each
  have ranks : Std.ExtTreeMap.ofList (descriptors.map fun d => (d.rank.rank, d.rank)) compare = s.ranks := by
    apply ofList_eq
    · intro r e bound
      obtain ⟨d, there, same⟩ := List.mem_map.mp bound
      obtain ⟨p, _, _, r', e', _, entry, rfl⟩ := exists_item pairs there
      obtain ⟨rfl, rfl⟩ := Prod.mk.inj same
      have own := (packs r' _ entry).1
      exact own.symm ▸ entry
    · intro r e entry
      obtain ⟨own, described⟩ := packs r e entry
      have there : packPath s.id r ∈ (filesIn files (.uuid s.id)).filter isPack :=
        mem_packs.mpr ⟨_, rfl, rfl, described.isSome⟩
      obtain ⟨d, present, _, r', e', path, entry', rfl⟩ := exists_result pairs there
      obtain ⟨_, rfl⟩ := packPath_inj.mp path
      obtain rfl : e = e' := Option.some.inj (entry.symm.trans entry')
      exact List.mem_map.mpr ⟨_, present, by rw [← own]; rfl⟩
  refine rebuildFromPacks_eq_some.mpr ⟨descriptors, pairs.imp fun p d found => found.1, ?_⟩
  cases descriptors with
  | nil =>
    rw [← ranks] at written
    simp at written
  | cons d rest =>
    obtain ⟨p, _, _, r, e, _, _, rfl⟩ := exists_item pairs (List.mem_cons_self)
    refine ⟨_, rest, rfl, rfl, ?_⟩
    rw [ranks, Snapshot.unpinned, done]
    rfl

/-- Where the pack of one rank is missing, cut short or another snapshot's there is
nothing to rebuild. -/
theorem rebuildFromPacks_damaged (written : r ∈ s.ranks) (damaged : Assembling.Fault files s.id r)
    (packs : ∀ r e, s.ranks[r]? = some e → Assembling.Fault files s.id r ∨ e.rank = r ∧
      HoldsPack files (packPath s.id r) (s.describing s.ranks.size e))
    (only : OnlyPacks files s.id (· ∈ s.ranks)) :
    rebuildFromPacks files (.uuid s.id) (filesIn files (.uuid s.id)) = none := by
  by_contra made
  obtain ⟨t, rebuilt⟩ := Option.ne_none_iff_exists'.mp made
  obtain ⟨descriptors, pairs, d, rest, first, size, made⟩ := rebuildFromPacks_eq_some.mp rebuilt
  have each : ∀ d ∈ descriptors, ∃ r e, ¬ Assembling.Fault files s.id r ∧ s.ranks[r]? = some e ∧ e.rank = r ∧
      d = s.describing s.ranks.size e := by
    intro d there
    obtain ⟨p, listed, described⟩ := exists_item pairs there
    obtain ⟨name, rfl, pack, found⟩ := mem_packs.mp listed
    obtain ⟨r, known, rfl⟩ := only name pack found
    obtain ⟨e, entry⟩ := exists_of_mem known
    have sound : ¬ Assembling.Fault files s.id r :=
      fun fault => fault.unread d.rank (shardOf_of_descriptorOf described)
    obtain ⟨own, holds⟩ := (packs r e entry).resolve_left sound
    have read := HoldsPack.read (d := s.describing s.ranks.size e) holds
    exact ⟨r, e, sound, entry, own, Option.some.inj (described.symm.trans read)⟩
  have keys : ∀ r, r ∈ t.ranks → r ∈ s.ranks ∧ ¬ Assembling.Fault files s.id r := by
    intro r there
    obtain ⟨e, entry⟩ := exists_of_mem there
    rw [made] at entry
    obtain ⟨d, present, same⟩ := List.mem_map.mp (mem_of_getElem?_ofList entry)
    obtain ⟨r', e', sound, entry', own, rfl⟩ := each d present
    obtain rfl : r' = r := own.symm.trans (Prod.mk.inj same).1
    exact ⟨mem_of_getElem? entry', sound⟩
  have fewer : t.ranks.size < s.ranks.size :=
    size_lt (fun r there => (keys r there).1) written fun there => (keys r there).2 damaged
  obtain ⟨_, e, _, _, _, rfl⟩ := each d (by simp [first])
  exact absurd size.symm (Nat.ne_of_lt fewer)

end Recovery
end
end Moonclip
