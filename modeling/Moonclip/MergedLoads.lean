import Moonclip.Described

/-! A full merge keeps what the newest delta stands for: every rank of the merged
snapshot loads the bytes the rank it was made of loaded before. -/
namespace Moonclip
open Library.Codec Library.Files Library.Outcome Library.Tables

/-- Two algorithms that undo the same bytes: a level matters to the compressor alone. -/
def CompressionAlgo.Alike : CompressionAlgo → CompressionAlgo → Prop
  | .none, .none => True
  | .zstd _, .zstd _ => True
  | _, _ => False

theorem Compression.decompress_alike [Zstd] {one two : CompressionAlgo} (alike : one.Alike two)
    (data : Bytes) :
    decompress data two = decompress data one := by
  cases one with
  | none =>
    cases two with
    | none => rfl
    | zstd _ => exact alike.elim
  | zstd _ =>
    cases two with
    | none => exact alike.elim
    | zstd _ => rfl

namespace Merger
variable {files : Files} {m : Manifest} {base source : Snapshot} {rank : Nat} {algo : CompressionAlgo}
  {baseRank sourceRank : RankEntry} {e : TensorEntry} {data : Bytes}

/-- The merger finds a tensor's compressed bytes where a load finds them. -/
theorem loadCompressedData_of_extract (present : source.ranks[rank]? = some sourceRank)
    (inPack : e.filename = none)
    (read : Tensor.extractCompressed files e (Coordinator.rangedPack sourceRank) = .ok data) :
    loadCompressedData files source rank e = .ok data := by
  unfold Coordinator.rangedPack at read
  cases packed : sourceRank.packFile with
  | none => simp [packed, Tensor.extractCompressed, Tensor.extractCompressed.fromFile, inPack] at read
  | some p =>
    simp only [packed, Tensor.extractCompressed, bind_eq_ok] at read
    obtain ⟨cut, ranged, read⟩ := read
    split at read
    · rename_i size
      obtain rfl := pure_eq_ok.mp read
      simp [loadCompressedData, inPack, present, packed, ranged, size]
    · simp at read

variable [Zstd] [Xxh3]

/-- A full entry that passes its integrity check decompresses to what the merger reads. -/
theorem loadTensorData_of_full (alike : source.compression.Alike algo)
    (present : source.ranks[rank]? = some sourceRank) (inPack : e.filename = none) (full : e.storage = .full)
    (read : Tensor.loadFull files e source.compression (Coordinator.rangedPack sourceRank) = .ok data) :
    loadTensorData files source rank algo e = .ok data := by
  simp only [Tensor.loadFull, bind_eq_ok] at read
  obtain ⟨compressed, cut, checked⟩ := read
  have unpacked : Compression.decompress compressed source.compression = .ok data := by
    cases recorded : e.hashCompressed with
    | none => simpa [recorded] using checked
    | some expected =>
      simp only [recorded] at checked
      split at checked
      · simp at checked
      · exact checked
  simp only [loadTensorData, full, bind_eq_ok]
  exact ⟨compressed, loadCompressedData_of_extract present inPack cut,
    (Compression.decompress_alike alike compressed).trans unpacked⟩

/-- Where a load finds the base's bytes for a name, the merger finds the same: both
follow aliases for at most eight hops, by induction on the hops left. -/
theorem baseTensorData_of_load (alike : base.compression.Alike algo)
    (found : m.findSnapshot base.id = some base)
    (present : base.ranks[rank]? = some baseRank) (sheet : Sheet baseRank.tensors) {name : String}
    (read : Tensor.loadBaseRaw files base.id (Coordinator.findBaseTensorEntryRanged rank m base.id)
      name = .ok data) :
    baseTensorData files base rank algo name = .ok data := by
  simp only [Tensor.loadBaseRaw, Tensor.resolveBaseEntry, bind_eq_ok] at read
  obtain ⟨one, resolved, read⟩ := read
  simp only [baseTensorData, present]
  suffices ∀ hops current,
      Tensor.resolveBaseEntry.go base.id name (Coordinator.findBaseTensorEntryRanged rank m base.id)
        hops current =
        .ok one → baseTensorData.go files base rank algo name baseRank hops current = .ok data from
    this 8 name resolved
  intro hops
  induction hops with
  | zero =>
    intro current resolved
    simp [Tensor.resolveBaseEntry.go] at resolved
  | succ hops ih =>
    intro current resolved
    simp only [Tensor.resolveBaseEntry.go, bind_eq_ok, Coordinator.findBaseTensorEntryRanged, found,
      present] at resolved
    obtain ⟨answer, looked, rest⟩ := resolved
    cases named : baseRank.tensors.find? (·.name == current) with
    | none => simp [named] at looked
    | some entry =>
      obtain rfl : (⟨entry, base.compression, Coordinator.rangedPack baseRank⟩ : BaseEntry) = answer := by
        simpa [named] using looked
      simp only [baseTensorData.go, named]
      by_cases aliased : entry.storage = .aliased
      · cases target : entry.aliasOf with
        | none => simp [aliased, target] at rest
        | some target' =>
          simp only [aliased, target, if_true, ne_eq, not_true_eq_false, if_false] at rest ⊢
          exact ih target' rest
      · obtain rfl := by simpa [aliased] using rest
        rw [if_neg aliased]
        have inPack := sheet.inPack entry (List.mem_of_find?_eq_some named)
        unfold Tensor.loadRawWith at read
        cases kind : entry.storage with
        | aliased => exact absurd kind aliased
        | full =>
          simp only [kind] at read
          exact loadTensorData_of_full alike present inPack kind read
        | skipped => simp [kind] at read
        | deltaXor => simp [kind] at read

/-- The bytes a merge takes a tensor of the newest delta for are those it loads as. -/
theorem currentData_of_load (ofBase : base.compression.Alike algo) (ofSource : source.compression.Alike algo)
    (present : source.ranks[rank]? = some sourceRank) (inPack : e.filename = none)
    (sheets : ∀ entry, base.ranks[rank]? = some entry → Sheet entry.tensors)
    (root : ∀ id, source.baseSnapshotId = some id → id = base.id ∧ m.findSnapshot base.id = some base)
    (read : Tensor.loadTensorRaw files source.baseSnapshotId source.compression
      (Coordinator.rangedPack sourceRank)
      (Coordinator.findBaseTensorEntryRanged rank m) e = .ok data) :
    currentData files base source rank algo e = .ok data := by
  have ofRoot : ∀ f, (source.baseSnapshotId.map fun id =>
      Tensor.loadBaseRaw files id (Coordinator.findBaseTensorEntryRanged rank m id)) = some f →
      ∀ name bytes, f name = .ok bytes → baseTensorData files base rank algo name = .ok bytes := by
    intro f given name bytes looked
    obtain ⟨id, based, rfl⟩ := Option.map_eq_some_iff.mp given
    obtain ⟨rfl, found⟩ := root id based
    cases there : base.ranks[rank]? with
    | none =>
      simp [Tensor.loadBaseRaw, Tensor.resolveBaseEntry, Tensor.resolveBaseEntry.go,
        Coordinator.findBaseTensorEntryRanged, found, there] at looked
    | some baseRank => exact baseTensorData_of_load ofBase found there (sheets baseRank there) looked
  unfold Tensor.loadTensorRaw Tensor.loadRawWith at read
  unfold currentData
  cases kind : e.storage with
  | aliased => simp [kind] at read
  | full =>
    simp only [kind] at read ⊢
    exact loadTensorData_of_full ofSource present inPack kind read
  | skipped =>
    simp only [kind] at read ⊢
    split at read
    · simp at read
    · rename_i f given
      exact ofRoot f given e.name data read
  | deltaXor =>
    simp only [kind, Tensor.loadXor, bind_eq_ok, pure_eq_ok] at read ⊢
    obtain ⟨delta, ⟨compressed, cut, unpacked, undone, rfl⟩, rest⟩ := read
    split at rest
    · simp at rest
    · rename_i f given
      simp only [bind_eq_ok] at rest
      obtain ⟨baseRaw, looked, raw, applied, checked⟩ := rest
      split at checked
      · simp at checked
      · obtain rfl := pure_eq_ok.mp checked
        exact ⟨baseRaw, ofRoot f given e.name baseRaw looked, compressed,
          loadCompressedData_of_extract present inPack cut, unpacked,
          (Compression.decompress_alike ofSource compressed).trans undone, applied⟩

/-- A tensor rewritten in full, laid out in the new pack, loads the bytes it was
rewritten from, cast or not. -/
theorem loadTensor_merged [LawfulZstd] {pt : ProcessedTensor} {e' : TensorEntry} {pack : Bytes} {raw : Bytes}
    {find : Uuid → String → Except MoonclipError BaseEntry} (own : e.storage ≠ .aliased)
    (current : currentData files base source rank algo e = .ok raw) (undone : Tensor.uncast e raw = .ok data)
    (made : mergeTensor files base source rank algo e = .ok pt)
      (placed : ∃ offset, e' = { pt.entry with offset := offset })
    (blob : pt.writeData = if e'.hasBytes then some ((pack.drop e'.offset).take e'.compressedSize) else none)
    (within : e'.hasBytes = true → e'.offset + e'.compressedSize ≤ pack.length) (files' : Files) :
    Tensor.loadTensor files' none algo (.whole pack) find e' = .ok data := by
  unfold mergeTensor at made
  simp only [if_neg own, current, bind_eq_ok, Except.ok.injEq, exists_eq_left', pure_eq_ok] at made
  obtain ⟨compressed, packed, rfl⟩ := made
  obtain ⟨offset, rfl⟩ := placed
  have bytes := within rfl
  obtain same : compressed = (pack.drop offset).take compressed.length := by
    simpa [TensorEntry.hasBytes] using blob
  dsimp only at bytes
  simp only [Tensor.loadTensor, Tensor.loadTensorRaw, Tensor.loadRawWith, Tensor.loadFull,
    Tensor.extractCompressed,
    if_pos bytes, ← same, bind_eq_ok]
  exact ⟨raw, ⟨compressed, rfl, by simpa using Compression.decompress_compress packed⟩, undone⟩

end Merger

namespace Coordinator

/-- Entries that carry the same names and aliases, and bytes that read alike, load alike. -/
theorem loadEntries_carried {f g : TensorEntry → Except MoonclipError Bytes}
    {entries entries' : List TensorEntry}
    (each : List.Forall₂ (fun e e' => Carried e e' ∧ (e.storage ≠ .aliased → Carries (f e) (g e')))
      entries entries') :
    Carries (loadEntries f entries) (loadEntries g entries') := by
  intro out loaded
  have pairs : ∀ read, (entries.filter (·.storage != .aliased)).mapM (fun e => do
      let data ← f e
      return (e.name, data)) = .ok read →
        (entries'.filter (·.storage != .aliased)).mapM (fun e => do
          let data ← g e
          return (e.name, data)) = .ok read := by
    clear loaded
    induction each with
    | nil => exact fun read same => same
    | @cons e e' rest rest' first _ ih =>
      intro read same
      obtain ⟨carried, carries⟩ := first
      by_cases aliased : e.storage = .aliased
      · have aliased' := carried.kind.mpr aliased
        simp only [List.filter_cons, aliased, aliased', bne_self_eq_false, Bool.false_eq_true,
          if_false] at same ⊢
        exact ih read same
      · have own : (e.storage != .aliased) = true := by simpa using aliased
        have own' : (e'.storage != .aliased) = true := by
          simpa using fun kind => aliased (carried.kind.mp kind)
        simp only [List.filter_cons, own, own', if_true, List.mapM_cons, bind_eq_ok, pure_eq_ok] at same ⊢
        obtain ⟨pair, ⟨data, made, rfl⟩, others, later, rfl⟩ := same
        exact ⟨_, ⟨data, carries aliased data made, by rw [carried.name]⟩, others, ih others later, rfl⟩
  have second : ∀ out, loadAliases out entries' = loadAliases out entries := by
    clear loaded pairs
    induction each with
    | nil => exact fun _ => rfl
    | @cons e e' rest rest' first _ ih =>
      intro out
      obtain ⟨carried, _⟩ := first
      unfold loadAliases
      by_cases aliased : e.storage = .aliased
      · simp only [aliased, carried.kind.mpr aliased, carried.target aliased, carried.name, ih]
      · simp only [if_pos aliased, if_pos fun kind => aliased (carried.kind.mp kind), ih]
  simp only [loadEntries, bind_eq_ok] at loaded ⊢
  obtain ⟨read, made, loaded⟩ := loaded
  exact ⟨read, pairs read made, (second _).trans loaded⟩

end Coordinator

namespace Merger
variable [Zstd] [Xxh3] [SerdeJson] {w : World} {m : Manifest} {base last : Snapshot} {context : MergedContext}
  {worldSize : Nat}

open Library.Effect in
/-- Every rank of a merge names the pack it was written to. -/
theorem mergeRanks_packed {ranks : List Nat} {entries : List (Nat × RankEntry)} {after : World}
    (ran : mergeRanks base last context worldSize ranks w = .ok entries after) :
    ∀ r e, (r, e) ∈ entries → e.packFile = some (packPath context.id r) := by
  induction ranks generalizing w entries with
  | nil =>
    obtain ⟨rfl, _⟩ := pure_eq_ok.mp ran
    simp
  | cons rank rest ih =>
    obtain ⟨merged, mid, first, ran⟩ := bind_eq_ok.mp ran
    obtain ⟨others, _, later, ran⟩ := bind_eq_ok.mp ran
    obtain ⟨rfl, rfl⟩ := pure_eq_ok.mp ran
    intro r e listed
    rcases List.mem_append.mp listed with here | there
    · obtain rfl := Option.mem_toList.mp here
      unfold mergeRank at first
      rw [get_bind_apply] at first
      obtain ⟨made, _, decided, first⟩ := bind_eq_ok.mp first
      have packed := (returning_eq_ok.mp decided).1
      cases made with
      | none =>
        obtain ⟨same, _⟩ := pure_eq_ok.mp first
        contradiction
      | some pair =>
        obtain ⟨entry, parts⟩ := pair
        obtain ⟨_, _, _, first⟩ := bind_eq_ok.mp first
        obtain ⟨same, _⟩ := pure_eq_ok.mp first
        obtain ⟨rfl, rfl⟩ := Prod.mk.inj (Option.some.inj same)
        unfold mergedPack at packed
        split at packed
        · simp at packed
        · simp only [Library.Outcome.bind_eq_ok, Library.Outcome.pure_eq_ok, Option.some.injEq,
            Prod.mk.injEq] at packed
          obtain ⟨_, _, _, _, rfl, rfl⟩ := packed
          rfl
    · exact ih later r e there

omit [Zstd] [Xxh3] [SerdeJson] in
/-- A group to fold is a full snapshot and deltas taken against it. -/
theorem fullPlan_rooted {deltas : List Snapshot} (planned : fullPlan m = .ok (.fold base deltas)) :
    base.baseSnapshotId = none ∧ ∀ d ∈ deltas, d.baseSnapshotId = some base.id := by
  unfold fullPlan at planned
  split at planned
  · contradiction
  · rename_i full found
    extract_lets group at planned
    split at planned
    · simp at planned
    · split at planned
      · simp at planned
      · obtain ⟨rfl, rfl⟩ := FullPlan.fold.inj (Except.ok.inj planned)
        constructor
        · exact (full.isFull_iff.mp (List.find?_some found)).1
        · intro d grouped
          have kept := (List.mem_filter.mp grouped).2
          simp only [Bool.and_eq_true, beq_iff_eq] at kept
          exact kept.1

omit [Zstd] [Xxh3] [SerdeJson] in
theorem mem_allRanks {r : Nat} : r ∈ allRanks base last ↔ r ∈ base.ranks ∨ r ∈ last.ranks := by
  simp [allRanks, List.mem_dedup, List.mem_insertionSort]

omit [Zstd] [Xxh3] [SerdeJson] in
/-- What a merged rank is made of is listed, and is a delta of the base or the base. -/
theorem sourceOf_eq {r : Nat} {source : Snapshot} {sourceRank : RankEntry}
    (found : sourceOf base last r = some (source, sourceRank)) :
    (source = last ∨ source = base) ∧ source.ranks[r]? = some sourceRank := by
  unfold sourceOf at found
  split at found
  · rename_i there
    obtain ⟨rfl, rfl⟩ := Prod.mk.inj (Option.some.inj found)
    exact ⟨.inl rfl, there⟩
  · obtain ⟨_, there, same⟩ := Option.map_eq_some_iff.mp found
    obtain ⟨rfl, rfl⟩ := Prod.mk.inj same
    exact ⟨.inr rfl, there⟩

variable [LawfulZstd]

omit [SerdeJson] in
/-- One rank of a folded group: its new pack loads what its source loaded. -/
theorem loadRank_merged {r : Nat} {source : Snapshot} {sourceRank e : RankEntry} {t : Snapshot}
    {files files' : Files}
    {m m' : Manifest} {out : TensorMap} {pts : List ProcessedTensor} {pack : Bytes}
    (sheets : ∀ s ∈ m.snapshots, Ledger s.ranks) (ofBase : base.compression.Alike context.compression)
    (ofSource : source.compression.Alike context.compression) (listed : source ∈ m.snapshots)
    (root : ∀ id, source.baseSnapshotId = some id → id = base.id ∧ m.findSnapshot base.id = some base)
    (rooted : base ∈ m.snapshots) (present : source.ranks[r]? = some sourceRank)
    (rewritten : sourceRank.tensors.mapM (mergeTensor files base source r context.compression) = .ok pts)
    (laid : LaidOut pack pts e.tensors) (entry : t.ranks[r]? = some e)
      (packed : e.packFile = some (packPath context.id r))
    (stored : files'.find? (packPath context.id r) = some pack) (full : t.baseSnapshotId = none)
    (algo : t.compression = context.compression)
    (loaded : Coordinator.loadRank r files m source = .ok out) :
      Coordinator.loadRank r files' m' t = .ok out := by
  have sheet := sheets source listed r sourceRank present
  simp only [Coordinator.loadRank, present, entry, bind_eq_ok] at loaded ⊢
  obtain ⟨whole, found, ctx, made, loaded⟩ := loaded
  have opened : Coordinator.packOf files' e = .ok (.whole pack) := by
    simp only [Coordinator.packOf, packed, map_eq_ok]
    exact ⟨pack, Storage.get_eq_ok.mpr stored, rfl⟩
  refine ⟨.whole pack, opened, none, by simp [Coordinator.baseContext, full], ?_⟩
  refine Coordinator.loadEntries_carried ?_ out loaded
  obtain ⟨trailer, length, _, inside, bounds⟩ := laid.bounds
  refine compose (mapM_eq_ok.mp rewritten) laid.blobs fun a there pt b present' merged placed => ?_
  obtain ⟨⟨offset, same⟩, blob⟩ := placed
  constructor
  · have carried := carried_mergeTensor merged
    rw [same]
    exact ⟨carried.name, carried.inPack, carried.kind, carried.target⟩
  · intro own data read
    have read := Tensor.loadTensor_ranged (Coordinator.packOf_spans found) (sheet.inPack a there)
      (fun id based n one looked => Coordinator.resolver_ranged sheets (based ▸ made) looked) data read
    simp only [Tensor.loadTensor, bind_eq_ok] at read
    obtain ⟨raw, read, undone⟩ := read
    have current := currentData_of_load ofBase ofSource present (sheet.inPack a there)
      (fun baseRank known => sheets base rooted r baseRank known) root read
    rw [full, algo]
    refine loadTensor_merged own current undone merged ⟨offset, same⟩ blob (fun bytes => ?_) files'
    have within := (bounds b present' bytes).2
    omega

omit [Zstd] [Xxh3] [SerdeJson] [LawfulZstd] in
theorem findSnapshot_of_mem {t : Snapshot} (distinct : Distinct m.snapshots) (listed : t ∈ m.snapshots) :
    m.findSnapshot t.id = some t := by
  cases found : m.findSnapshot t.id with
  | none => simpa using List.find?_eq_none.mp found t listed
  | some u =>
    have same : u.id = t.id := by simpa using List.find?_some found
    rw [List.inj_on_of_nodup_map distinct (List.mem_of_find?_eq_some found) listed same]

omit [Zstd] [Xxh3] [SerdeJson] [LawfulZstd] in
theorem mem_filesOf_none {t : Snapshot} {rank : Option Nat} {p : Path}
    (named : p ∈ t.filesOf rank) : p ∈ t.filesOf none := by
  obtain ⟨pair, there, inside⟩ := List.mem_flatMap.mp named
  exact List.mem_flatMap.mpr ⟨pair, List.mem_filter.mpr ⟨List.mem_of_mem_filter there, rfl⟩, inside⟩

/-- What a folded group leaves in its place has the ranks of the base and of the newest
delta, and each loads what it loaded from the newest of the two that has it. -/
theorem foldGroup_loads {deltas : List Snapshot} {after : World}
    (bounded : ∀ p body, w.disk.accepts p body = true → body.length < 2 ^ 64)
    (sheets : ∀ s ∈ w.manifest.snapshots, Ledger s.ranks) (distinct : Distinct w.manifest.snapshots)
    (unused : Unused context.id w) (group : ∀ s ∈ deltas ++ [base], s ∈ w.manifest.snapshots)
    (alike : ∀ s ∈ deltas ++ [base], s.compression.Alike context.compression) (newest : last ∈ deltas)
    (root : base.baseSnapshotId = none) (rooted : last.baseSnapshotId = some base.id)
    (ran : foldGroup base deltas last context w = .ok .merged after) : ∃ t,
      after.manifest.findSnapshot context.id = some t ∧ t.step = context.step ∧
      (∀ r, r ∈ t.ranks ↔ r ∈ base.ranks ∨ r ∈ last.ranks) ∧
      ∀ r source sourceRank out, sourceOf base last r = some (source, sourceRank) →
        Coordinator.loadRank r w.disk.files w.manifest source = .ok out →
        Coordinator.loadRank r after.disk.files after.manifest t = .ok out := by
  obtain ⟨entries, mid, published, merged, listed, unlinked⟩ := foldGroup_eq_ok ran
  have start : Merging w base last context (allRanks base last).length [] w := Merging.begin unused.absent
  obtain ⟨ranks, merging⟩ := (mergeRanks_merging bounded [] (fun r => allRanks_known)
    (by simpa using allRanks_nodup)).ok start merged
  have kept := (unlinkSnapshots_keeps (fun _ _ => True) fun s there =>
    unused.unnamed s (group s there)).ok (publish_keeps listed) unlinked
  have once : (entries.map Prod.fst).Nodup := ranks ▸ allRanks_nodup
  have ofBase : base ∈ w.manifest.snapshots := group base (by simp)
  have ofLast : last ∈ w.manifest.snapshots := group last (by simp [newest])
  have found : w.manifest.findSnapshot base.id = some base := findSnapshot_of_mem distinct ofBase
  refine ⟨mergedSnapshot context entries, ?_, rfl, fun r => ?_,
    fun r source sourceRank out chosen loaded => ?_⟩
  · apply findSnapshot_folded kept.list
    rw [merging.manifest]
    exact unused.unlisted
  · rw [← mem_allRanks, ← ranks]
    constructor
    · intro there
      obtain ⟨e, entry⟩ := exists_of_mem there
      exact List.mem_map_of_mem (f := Prod.fst) (mem_of_getElem?_ofList entry)
    · intro there
      obtain ⟨⟨r, e⟩, pair, rfl⟩ := List.mem_map.mp there
      exact mem_of_getElem? (getElem?_ofList_of_mem once pair)
  · obtain ⟨which, present⟩ := sourceOf_eq chosen
    have known : r ∈ entries.map Prod.fst := by
      rw [ranks, mem_allRanks]
      rcases which with rfl | rfl
      · exact .inr (mem_of_getElem? present)
      · exact .inl (mem_of_getElem? present)
    obtain ⟨⟨r, e⟩, pair, rfl⟩ := List.mem_map.mp known
    obtain ⟨_, pts, parts, page, went, each, tensors, packed, fits, stored⟩ := merging.packs r e pair
    obtain ⟨files, source', sourceRank', beside, chosen', rewritten⟩ := went
    obtain ⟨rfl, rfl⟩ := Prod.mk.inj (Option.some.inj (chosen.symm.trans chosen'))
    have there : source ∈ w.manifest.snapshots := by
      rcases which with rfl | rfl
      · exact ofLast
      · exact ofBase
    have ofSource : source.compression.Alike context.compression := by
      rcases which with rfl | rfl
      · exact alike source (by simp [newest])
      · exact alike source (by simp)
    have based : ∀ id, source.baseSnapshotId = some id →
        id = base.id ∧ w.manifest.findSnapshot base.id = some base := by
      intro id of
      rcases which with rfl | rfl
      · exact ⟨Option.some.inj (of.symm.trans rooted), found⟩
      · simp [root] at of
    -- what is read lies outside the merge's own directory, so it is as it was
    have undisturbed : ∀ s ∈ w.manifest.snapshots, Agree (s.filesOf (some r)) w.disk.files files :=
      fun s known p named => beside p (unused.unnamed s known p (mem_filesOf_none named))
    have again : Coordinator.loadRank r files w.manifest source = .ok out := by
      rw [← loaded]
      apply Coordinator.loadRank_congr rfl (undisturbed source there)
      intro id of
      obtain ⟨rfl, held⟩ := based id of
      exact ⟨base.unpinned, ⟨by simp [held], by simp [held]⟩, undisturbed base ofBase⟩
    have laid : LaidOut _ pts e.tensors := tensors ▸ Coordinator.laidOut_pack each packed fits
    apply loadRank_merged sheets (alike base (by simp)) ofSource there based ofBase present rewritten
      laid (getElem?_ofList_of_mem once pair)
      (mergeRanks_packed merged r e pair) _ rfl rfl again
    exact (kept.packs _ rfl).trans stored

/-- A full merge keeps what the newest delta stands for: each of its ranks, and each
rank only the base has, loads from the merged snapshot what it loaded before. -/
theorem doFullMerge_loads {algo : CompressionAlgo} {id : Uuid} {now : Nat} {after : World}
    (bounded : ∀ p body, w.disk.accepts p body = true → body.length < 2 ^ 64)
    (sheets : ∀ s ∈ w.manifest.snapshots, Ledger s.ranks) (distinct : Distinct w.manifest.snapshots)
    (unused : Unused id w)
    (alike : ∀ base deltas, fullPlan w.manifest = .ok (.fold base deltas) →
      ∀ s ∈ deltas ++ [base], s.compression.Alike algo)
    (ran : doFullMerge algo id now w = .ok .merged after) : ∃ base deltas last t,
      fullPlan w.manifest = .ok (.fold base deltas) ∧ deltas.getLast? = some last ∧
      after.manifest.findSnapshot id = some t ∧ t.step = last.step ∧
      (∀ r, r ∈ t.ranks ↔ r ∈ base.ranks ∨ r ∈ last.ranks) ∧
      ∀ r out, (Coordinator.load r w.disk.files w.manifest last.id = .ok out ∨
          r ∉ last.ranks ∧ Coordinator.load r w.disk.files w.manifest base.id = .ok out) →
        Coordinator.load r after.disk.files after.manifest id = .ok out := by
  obtain ⟨base, deltas, last, claimed, released, planned, newest, ran, manifest, disk⟩ :=
    doFullMerge_eq_ok ran
  obtain ⟨ofBase, ofDeltas⟩ := fullPlan_group planned
  obtain ⟨root, rooted⟩ := fullPlan_rooted planned
  have present : last ∈ deltas := List.mem_of_getLast? newest
  have group : ∀ s ∈ deltas ++ [base], s ∈ w.manifest.snapshots := by
    intro s listed
    rcases List.mem_append.mp listed with delta | full
    · exact ofDeltas s delta
    · exact List.mem_singleton.mp full ▸ ofBase
  obtain ⟨t, found, step, ranks, loads⟩ :=
    foldGroup_loads (w := { w with inFlight := claimed }) bounded sheets
    distinct ⟨unused.unlisted, unused.unnamed, unused.absent⟩ group (alike base deltas planned) present root
    (rooted last present) ran
  rw [manifest, disk]
  refine ⟨base, deltas, last, t, planned, newest, found, step, ranks, fun r out loaded => ?_⟩
  have merged : released.manifest.findSnapshot id = some t := found
  have last' : w.manifest.findSnapshot last.id = some last :=
    findSnapshot_of_mem distinct (ofDeltas last present)
  have base' : w.manifest.findSnapshot base.id = some base := findSnapshot_of_mem distinct ofBase
  simp only [Coordinator.load, last', base', merged] at loaded ⊢
  rcases loaded with delta | ⟨absent, full⟩
  · cases there : last.ranks[r]? with
    | none => simp [Coordinator.loadRank, there] at delta
    | some entry => exact loads r last entry out (by simp [sourceOf, there]) delta
  · have none' : last.ranks[r]? = none := by
      cases there : last.ranks[r]? with
      | none => rfl
      | some entry => exact absurd (mem_of_getElem? there) absent
    cases there : base.ranks[r]? with
    | none => simp [Coordinator.loadRank, there] at full
    | some entry => exact loads r base entry out (by simp [sourceOf, none', there]) full

end Merger

/-- Entries none of which shares another's bytes are in order. -/
theorem Sheet.of_own {entries : List TensorEntry} (distinct : (entries.map (·.name)).Nodup)
    (inPack : ∀ e ∈ entries, e.filename = none) (own : ∀ e ∈ entries, e.storage ≠ .aliased) : Sheet entries :=
  ⟨distinct, inPack, fun e listed => ⟨e, listed, own e listed, .inl rfl⟩⟩

open Library.Effect in
/-- A full and a delta in which one of two tensors has changed, folded: what the delta loads
as is what the merge leaves. -/
theorem Merger.doFullMerge_loads_pair :
    let _ := Linked.zstd
    let _ := Linked.xxh3
    let _ := Described.serde
    ∃ out, Coordinator.load 0 Described.folding.disk.files Described.folding.manifest 8 = .ok out ∧
      Coordinator.load 0 (finalState Described.fold Described.folding).disk.files
        (finalState Described.fold Described.folding).manifest 9 = .ok out ∧
      out.toList = [("b", [4]), ("w", [1, 2])] := by
  intro zstd xxh3 serde
  have := Linked.zstd_lawful
  have : LawfulSerdeJson := JsonText.serde_lawful _ (by simp) (by simp) (by decide +kernel) (by simp)
  have ran : value? Described.fold Described.folding = some .merged ∧
      (@Coordinator.load Linked.zstd Linked.xxh3 0 Described.folding.disk.files Described.folding.manifest
        8).toOption.map (·.toList) = some [("b", [4]), ("w", [1, 2])] := by
    decide +kernel
  obtain ⟨folded, loads⟩ := ran
  obtain ⟨out, loaded, held⟩ := Option.map_eq_some_iff.mp loads
  have loaded := toOption_eq_some.mp loaded
  have sheets : ∀ s ∈ Described.folding.manifest.snapshots, Ledger s.ranks := by
    intro s listed
    have which : s = Pair.full ∨ s = Pair.delta 8 200 := by simpa [Described.folding] using listed
    rcases which with rfl | rfl
    · exact ledger_ofList
        (by simpa [Coordinator.rankEntryOf] using .of_own (by decide) (by decide) (by decide))
    · exact ledger_ofList
        (by simpa [Coordinator.rankEntryOf] using .of_own (by decide) (by decide) (by decide))
  have unused : Merger.Unused 9 Described.folding := Described.unused
  have planned : Merger.fullPlan Described.folding.manifest = .ok (.fold Pair.full [Pair.delta 8 200]) := rfl
  have alike : ∀ base deltas, Merger.fullPlan Described.folding.manifest = .ok (.fold base deltas) →
      ∀ s ∈ deltas ++ [base], s.compression.Alike .none := by
    intro base deltas chosen s there
    obtain ⟨rfl, rfl⟩ := Merger.FullPlan.fold.inj (Except.ok.inj (planned.symm.trans chosen))
    have which : s = Pair.delta 8 200 ∨ s = Pair.full := by simpa using there
    rcases which with rfl | rfl <;> trivial
  obtain ⟨base, deltas, last, t, planned', newest, _, _, _, kept⟩ :=
    Merger.doFullMerge_loads (fun p body => of_decide_eq_true) sheets (by decide +kernel) unused alike
      (ok_of_value? folded)
  obtain ⟨rfl, rfl⟩ := Merger.FullPlan.fold.inj (Except.ok.inj (planned.symm.trans planned'))
  obtain rfl := Option.some.inj newest
  exact ⟨out, loaded, kept 0 out (.inl loaded), held⟩

namespace Recompressed

/-- What zstd makes of the tensor. -/
def frame : Bytes := Linked.rawFrame [1, 2]

/-- The hash, for the frame and what is in it. -/
abbrev xxh3 : Xxh3 where
  xxh3_128 data := if data = frame then 0x70155938B42B7A09251F5EEA998306C4 else Linked.xxh3.xxh3_128 data

def entry (offset : Nat) (body hashed : Bytes) : TensorEntry :=
  { Lone.byteEntry with
    offset := offset
    compressedSize := body.length
    rawSize := hashed.length
    hashRaw := @hashHex xxh3 hashed
    hashCompressed := some (@hashHex xxh3 body) }

def full : Snapshot :=
  { Lone.snapshot with
    compression := .zstd 3
    ranks := .ofList [(0, Coordinator.rankEntryOf 0 (packPath 7 0) [entry 32 frame [1, 2]])] }

def delta : Snapshot :=
  { Lone.snapshot with
    id := 8
    step := 200
    baseSnapshotId := some 7
    ranks := .ofList [(0, Coordinator.rankEntryOf 0 (packPath 8 0)
      [{ entry 0 [] [1, 2] with storage := .skipped, compressedSize := 0, hashCompressed := none }])] }

/-- A full saved under zstd, and a delta after the store was opened again without. -/
def world : World :=
  { blankWorld with
    disk := { blankWorld.disk with
      files := (FileStore.empty.put (packPath 7 0) (List.replicate Pack.headerLen 0 ++ frame)).put
        (packPath 8 0)
        (List.replicate Pack.headerLen 0) }
    manifest := { Manifest.default with snapshots := [full, delta], ranksWritten := {7, 8} } }

def context : Merger.MergedContext := Merger.mergedContext 9 6 .none delta 1

def mergedEntry : RankEntry := Merger.mergedRankEntry 0 (packPath 9 0) [⟨entry 32 frame frame, some frame⟩]

abbrev serde : SerdeJson :=
  let merged := Merger.mergedSnapshot context [(0, mergedEntry)]
  JsonText.serde (fun _ => [])
    [ManifestIo.indexOf { Manifest.default with snapshots := [merged], ranksWritten := {9} }]
    [⟨9, merged.ranks⟩] [Merger.describeMerged context 1 mergedEntry] []

def fold : Act MergeOutcome := @Merger.doFullMerge Linked.zstd xxh3 serde .none 9 6

def loads (w : World) (id : Uuid) : Option (List (String × Bytes)) :=
  (@Coordinator.load Linked.zstd xxh3 0 w.disk.files w.manifest id).toOption.map (·.toList)

end Recompressed

open Library.Effect in
/-- The merger undoes what it reads with its own algorithm: where the base was saved under
another, it reports a merge, and what is left loads as the base's frame. -/
theorem Merger.doFullMerge_recompressed :
    value? Recompressed.fold Recompressed.world = some .merged ∧
      Recompressed.loads Recompressed.world 8 = some [("b", [1, 2])] ∧
      Recompressed.loads (finalState Recompressed.fold Recompressed.world) 9 =
        some [("b", Recompressed.frame)] := by
  decide +kernel

end Moonclip
