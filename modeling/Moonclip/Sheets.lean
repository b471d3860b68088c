import Moonclip.DtypeRules
import Moonclip.Merger
import Moonclip.PartialLoading
import Moonclip.Ranks

/-! Every writer leaves a rank's entries in order: a save whatever it is computed
against, a merge wherever those it folds were. -/
namespace Moonclip
open Library.Outcome Library.Tables

/-- What an entry keeps where it is placed in a pack, or rewritten in full by a merge. -/
structure Carried (e e' : TensorEntry) : Prop where
  name : e'.name = e.name
  inPack : e.filename = none → e'.filename = none
  kind : e'.storage = .aliased ↔ e.storage = .aliased
  target : e.storage = .aliased → e'.aliasOf = e.aliasOf

theorem Sheet.carried {entries entries' : List TensorEntry} (sheet : Sheet entries)
    (each : List.Forall₂ Carried entries entries') : Sheet entries' where
  distinct := by
    rw [← map_eq_map (f := (·.name)) each fun e e' carried => carried.name.symm]
    exact sheet.distinct
  inPack e' listed := by
    obtain ⟨e, there, carried⟩ := exists_item each listed
    exact carried.inPack (sheet.inPack e there)
  holders e' listed := by
    obtain ⟨e, there, carried⟩ := exists_item each listed
    obtain ⟨t, holder⟩ := sheet.holders e there
    rcases holder.named with rfl | ⟨aliased, target⟩
    · exact ⟨e', listed, fun kind => holder.own (carried.kind.mp kind), .inl rfl⟩
    · obtain ⟨t', present, owner⟩ := exists_result each holder.listed
      refine ⟨t', present, fun kind => holder.own (owner.kind.mp kind), .inr ⟨carried.kind.mpr aliased, ?_⟩⟩
      rw [carried.target aliased, target, owner.name]

theorem Ledger.empty : Ledger ∅ := by
  intro r entry found
  simp at found

theorem ledger_ofList {entries : List (Nat × RankEntry)} (each : ∀ e ∈ entries, Sheet e.2.tensors) :
    Ledger (.ofList entries) :=
  fun _ _ found => each _ (mem_of_getElem?_ofList found)

namespace Coordinator

/-- Placing a tensor's bytes changes its entry's offset and nothing else. -/
theorem assignOffsets_carried {offset : Nat} {pts : List ProcessedTensor} :
    List.Forall₂ Carried (pts.map (·.entry)) ((assignOffsets offset pts).map (·.entry)) := by
  have placed := @assignOffsets_placed _ (List.replicate offset 0) [] pts rfl
  rw [List.length_replicate] at placed
  rw [List.forall₂_map_left_iff, List.forall₂_map_right_iff]
  refine placed.imp fun pt placed place => ?_
  obtain ⟨offset, same⟩ := place.entry
  rw [same]
  exact ⟨rfl, id, Iff.rfl, fun _ => rfl⟩

/-- The parts of a pack that describes `entry`. -/
def Packs [SerdeJson] (entry : RankEntry) (parts : List Bytes) : Prop :=
  ∃ descriptor blobs, packParts descriptor blobs = .ok parts ∧ descriptor.rank = entry

section
variable [Zstd] [Xxh3] {cfg : Config} {files : Files} {cache : Option BaseCache} {tensors : List TensorData}
  {pts : List ProcessedTensor}

/-- Whatever a save is computed against, its entries are in order. -/
theorem sheet_processAll (distinct : (tensors.map (·.name)).Nodup)
    (made : processAll cfg files cache tensors = .ok pts) : Sheet (pts.map (·.entry)) := by
  have planned := processAll_planned
    (R := fun t pt => ∃ w, Tensor.workingCopy t cfg.saveDtype = .ok w ∧ Describes t w pt.entry)
    distinct (fun t pt => Tensor.processTensor_describes) (fun t pt ⟨w, _, describes⟩ => describes.name) made
  constructor
  · rw [List.map_map]
    exact planned.names.nodup_iff.mpr distinct
  · intro e listed
    obtain ⟨pt, there, rfl⟩ := List.mem_map.mp listed
    rcases planned.each pt there with ⟨t, _, w, _, describes⟩ | ⟨t, _, u, _, pu, _, _, rfl, _⟩
    · exact describes.filename
    · rfl
  · intro e listed
    obtain ⟨pt, there, rfl⟩ := List.mem_map.mp listed
    rcases planned.each pt there with
      ⟨t, _, w, _, describes⟩ | ⟨t, _, u, _, pu, owner, ⟨w, _, describes⟩, rfl, _⟩
    · exact ⟨_, listed, describes.own, .inl rfl⟩
    · exact ⟨pu.entry, List.mem_map_of_mem owner, describes.own, .inr ⟨rfl, rfl⟩⟩

theorem sheet_packOfSave [SerdeJson] {snapId : Uuid} {base : Option Snapshot}
    {context : SnapshotContext} {w : World}
    {entry : RankEntry} {parts : List Bytes} (distinct : (tensors.map (·.name)).Nodup)
    (made : packOfSave cfg snapId base tensors context w = .ok (entry, parts)) :
    Sheet entry.tensors ∧ Packs entry parts := by
  simp only [packOfSave, bind_eq_ok, pure_eq_ok, Prod.mk.injEq] at made
  obtain ⟨pts, processed, parts', packed, rfl, rfl⟩ := made
  exact ⟨(sheet_processAll distinct processed).carried assignOffsets_carried, _, _, packed, rfl⟩

end
end Coordinator

namespace Merger
variable [Zstd] [Xxh3] {files : Files} {base source : Snapshot} {rank : Nat} {algo : CompressionAlgo}
  {e : TensorEntry} {pt : ProcessedTensor}

/-- A merge rewrites the entries of a rank one by one and carries its aliases through. -/
theorem carried_mergeTensor (made : mergeTensor files base source rank algo e = .ok pt) :
    Carried e pt.entry := by
  unfold mergeTensor at made
  split at made
  · obtain rfl := Except.ok.inj made
    exact ⟨rfl, id, Iff.rfl, fun _ => rfl⟩
  · rename_i own
    simp only [bind_eq_ok, pure_eq_ok] at made
    obtain ⟨data, _, compressed, _, rfl⟩ := made
    exact ⟨rfl, fun _ => rfl, by simpa using own, fun aliased => absurd aliased own⟩

theorem sheet_mergedPack [SerdeJson] {last : Snapshot} {context : MergedContext} {worldSize : Nat}
    {entry : RankEntry}
    {parts : List Bytes} (ofBase : Ledger base.ranks) (ofLast : Ledger last.ranks)
    (made : mergedPack files base last context worldSize rank = .ok (some (entry, parts))) :
    Sheet entry.tensors ∧ Coordinator.Packs entry parts := by
  unfold mergedPack at made
  cases source : sourceOf base last rank with
  | none => simp [source] at made
  | some found =>
    obtain ⟨source', sourceRank⟩ := found
    simp only [source, bind_eq_ok, pure_eq_ok, mapM_eq_ok, Option.some.injEq, Prod.mk.injEq] at made
    obtain ⟨merged, rewritten, parts', packed, rfl, rfl⟩ := made
    have before : Sheet sourceRank.tensors := by
      unfold sourceOf at source
      split at source
      · rename_i there
        obtain ⟨_, rfl⟩ := Prod.mk.inj (Option.some.inj source)
        exact ofLast rank _ there
      · obtain ⟨_, there, same⟩ := Option.map_eq_some_iff.mp source
        obtain ⟨_, rfl⟩ := Prod.mk.inj same
        exact ofBase rank _ there
    have carried : Sheet (merged.map (·.entry)) := by
      apply before.carried
      rw [List.forall₂_map_right_iff]
      exact rewritten.imp fun e pt => carried_mergeTensor
    exact ⟨carried.carried Coordinator.assignOffsets_carried, _, _, packed, rfl⟩

end Merger
end Moonclip
