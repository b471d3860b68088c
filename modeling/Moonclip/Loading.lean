import Moonclip.Coordinator
import Moonclip.Library.Tables

/-! What a load reads: the files a snapshot names and those its base names. Two
stores that agree on these load the same bytes. -/
namespace Moonclip
open Library.Outcome Library.Tables

/-- The two stores hold the same bytes under each of `paths`. -/
def Agree (paths : List Path) (files files' : Files) : Prop :=
  ∀ p ∈ paths, files'.find? p = files.find? p

section
variable {files files' : Files} {paths : List Path}

theorem Agree.mono (agree : Agree paths files files') (fewer : ∀ p ∈ paths', p ∈ paths) :
    Agree paths' files files' :=
  fun p present => agree p (fewer p present)

theorem Agree.symm (agree : Agree paths files files') : Agree paths files' files :=
  fun p present => (agree p present).symm

theorem Agree.get (agree : Agree paths files files') (present : p ∈ paths) :
    Storage.get files' p = Storage.get files p := by
  simp only [Storage.get, agree p present]

end

/-- The files a pack source reads later on. -/
def PackSource.paths : PackSource → List Path
  | .ranged p => [p]
  | _ => []

/-- The files a rank's entry names. -/
def RankEntry.paths (entry : RankEntry) : List Path :=
  entry.packFile.toList ++ entry.tensors.filterMap (·.filename)

theorem Snapshot.mem_filesOf {s : Snapshot} {rank : Nat} {entry : RankEntry}
    (found : s.ranks[rank]? = some entry) (named : p ∈ entry.paths) :
    p ∈ s.filesOf (some rank) := by
  have listed : (rank, entry) ∈ s.ranks.toList := Std.ExtTreeMap.mem_toList_iff_getElem?_eq_some.mpr found
  exact List.mem_flatMap.mpr ⟨(rank, entry), List.mem_filter.mpr ⟨listed, by simp⟩, named⟩

namespace Tensor
variable {files files' : Files} {entry : TensorEntry} {algo : CompressionAlgo} {pack : PackSource}

theorem extractCompressed_congr (agree : Agree (entry.filename.toList ++ pack.paths) files files') :
    extractCompressed files' entry pack = extractCompressed files entry pack := by
  have own : extractCompressed.fromFile files' entry = extractCompressed.fromFile files entry := by
    unfold extractCompressed.fromFile
    cases named : entry.filename with
    | none => rfl
    | some filename => simp only [agree.get (p := filename) (by simp [named])]
  cases pack with
  | whole bytes => simp only [extractCompressed, own]
  | ranged path =>
    simp only [extractCompressed, Storage.getRange, agree.get (p := path) (by simp [PackSource.paths])]
  | perFile => simp only [extractCompressed, own]

/-- What aliases resolve to is an entry the lookup answered with. -/
theorem resolveBaseEntry_found {baseId : Uuid} {name : String}
    {findBaseEntry : String → Except MoonclipError BaseEntry} {found : BaseEntry}
    (resolved : resolveBaseEntry baseId name findBaseEntry = .ok found) :
    ∃ current, findBaseEntry current = .ok found := by
  suffices ∀ hops current, resolveBaseEntry.go baseId name findBaseEntry hops current = .ok found →
      ∃ current, findBaseEntry current = .ok found from this 8 name resolved
  intro hops
  induction hops with
  | zero => intro current resolved; simp [resolveBaseEntry.go] at resolved
  | succ hops ih =>
    intro current resolved
    simp only [resolveBaseEntry.go, bind_eq_ok] at resolved
    obtain ⟨entry, looked, rest⟩ := resolved
    split at rest
    · obtain rfl : entry = found := by simpa using rest
      exact ⟨current, looked⟩
    · split at rest
      · exact ih _ rest
      · simp at rest

section
variable [Zstd] [Xxh3]

theorem loadRawWith_congr {baseRaw : Option (String → Except MoonclipError Bytes)}
    (agree : Agree (entry.filename.toList ++ pack.paths) files files') :
    loadRawWith baseRaw files' entry algo pack = loadRawWith baseRaw files entry algo pack := by
  have blob := extractCompressed_congr agree
  cases kind : entry.storage <;> simp only [loadRawWith, kind, loadFull, loadXor, blob]

theorem loadBaseRaw_congr {baseId : Uuid} {name : String}
    {findBaseEntry : String → Except MoonclipError BaseEntry}
    (agree : ∀ current found, findBaseEntry current = .ok found →
      Agree (found.entry.filename.toList ++ found.pack.paths) files files') :
    loadBaseRaw files' baseId findBaseEntry name = loadBaseRaw files baseId findBaseEntry name := by
  unfold loadBaseRaw
  cases resolved : resolveBaseEntry baseId name findBaseEntry with
  | error e => rfl
  | ok found =>
    obtain ⟨current, looked⟩ := resolveBaseEntry_found resolved
    change loadRawWith none files' found.entry found.compression found.pack =
      loadRawWith none files found.entry found.compression found.pack
    exact loadRawWith_congr (agree current found looked)

end

end Tensor

section
variable {entries : List TensorEntry} {name : String} {entry : TensorEntry}

theorem mem_of_entriesByName (found : (entriesByName entries)[name]? = some entry) :
    entry ∈ entries := by
  obtain ⟨e, listed, same⟩ := List.mem_map.mp (mem_of_getElem?_ofList found)
  obtain ⟨_, rfl⟩ := Prod.mk.injEq .. ▸ same
  exact listed

theorem name_of_entriesByName (found : (entriesByName entries)[name]? = some entry) :
    entry.name = name := by
  obtain ⟨e, _, same⟩ := List.mem_map.mp (mem_of_getElem?_ofList found)
  obtain ⟨rfl, rfl⟩ := Prod.mk.injEq .. ▸ same
  rfl

end

namespace Coordinator
variable {files files' : Files} {m m' : Manifest} {rank : Nat} {baseId : Uuid} {ctx : Option BaseCtx}
  {entry : RankEntry}

theorem packOf_congr (agree : Agree entry.paths files files') :
    packOf files' entry = packOf files entry := by
  unfold packOf
  cases packed : entry.packFile with
  | none => rfl
  | some p => simp only [agree.get (p := p) (by simp [RankEntry.paths, packed])]

/-- A pack source made for a rank's entry leaves nothing to read but the files
its tensors name. -/
theorem packOf_paths {pack : PackSource} (made : packOf files entry = .ok pack) :
    pack.paths = [] := by
  unfold packOf at made
  split at made
  · simp only [map_eq_ok] at made
    obtain ⟨bytes, _, rfl⟩ := made
    rfl
  · obtain rfl : PackSource.perFile = pack := by simpa using made
    rfl

/-- Whatever the base's lookup answers with, its bytes are in files of the base. -/
def Within (paths : List Path) (lookup : String → Except MoonclipError BaseEntry) : Prop :=
  ∀ name found, lookup name = .ok found →
    ∀ p ∈ found.entry.filename.toList ++ found.pack.paths, p ∈ paths

/-- The two manifests hold one snapshot under `id`, up to its pin. -/
structure Shared (m m' : Manifest) (id : Uuid) (s : Snapshot) : Prop where
  here : (m.findSnapshot id).map Snapshot.unpinned = some s
  there : (m'.findSnapshot id).map Snapshot.unpinned = some s

theorem Shared.found {id : Uuid} {s : Snapshot} (shared : Shared m m' id s) :
    ∃ t t', m.findSnapshot id = some t ∧ m'.findSnapshot id = some t' ∧
      t.unpinned = s ∧ t'.unpinned = s := by
  obtain ⟨t, found, same⟩ := Option.map_eq_some_iff.mp shared.here
  obtain ⟨t', found', same'⟩ := Option.map_eq_some_iff.mp shared.there
  exact ⟨t, t', found, found', same, same'⟩

section
variable {b : Snapshot}

theorem findBase_congr (shared : Shared m m' baseId b)
    (agree : Agree (b.filesOf (some rank)) files files') :
    findBaseTensorEntryWithPack rank files' m' baseId =
      findBaseTensorEntryWithPack rank files m baseId := by
  funext name
  obtain ⟨t, t', found, found', rfl, same⟩ := shared.found
  obtain ⟨_, _, ranks, _, compression, _⟩ := Snapshot.alike_of_unpinned same
  simp only [findBaseTensorEntryWithPack, found, found', ranks, compression]
  cases present : t.ranks[rank]? with
  | none => rfl
  | some entry =>
    have pack := packOf_congr (agree.mono fun p named => Snapshot.mem_filesOf present named)
    simp only [pack]

theorem baseContext_congr {needsBase : Bool} (shared : Shared m m' baseId b)
    (agree : Agree (b.filesOf (some rank)) files files') :
    baseContext rank files' m' needsBase (some baseId) =
      baseContext rank files m needsBase (some baseId) := by
  obtain ⟨t, t', found, found', rfl, same⟩ := shared.found
  obtain ⟨_, _, ranks, _, compression, _⟩ := Snapshot.alike_of_unpinned same
  cases needsBase with
  | false => rfl
  | true =>
    simp only [baseContext, Option.bind_some, found, found', if_true, ranks, compression]
    cases present : t.ranks[rank]? with
    | none => rfl
    | some entry =>
      have pack := packOf_congr (agree.mono fun p named => Snapshot.mem_filesOf present named)
      simp only [pack]

/-- An entry of the rank, and its pack, are within the files of the snapshot. -/
theorem entry_within {e : TensorEntry} {pack : PackSource} (present : b.ranks[rank]? = some entry)
    (listed : e ∈ entry.tensors) (made : packOf files entry = .ok pack) :
    ∀ p ∈ e.filename.toList ++ pack.paths, p ∈ b.filesOf (some rank) := by
  intro p named
  rw [packOf_paths made, List.append_nil, Option.mem_toList] at named
  exact Snapshot.mem_filesOf present
    (List.mem_append.mpr (.inr (List.mem_filterMap.mpr ⟨e, listed, named⟩)))

theorem resolver_within (shared : Shared m m' baseId b) {needsBase : Bool}
    (made : baseContext rank files m needsBase (some baseId) = .ok ctx) :
    Within (b.filesOf (some rank)) (resolver rank files m ctx baseId) := by
  obtain ⟨t, _, found, _, rfl, _⟩ := shared.found
  intro name answer looked
  cases ctx with
  | none =>
    simp only [resolver, findBaseTensorEntryWithPack, found] at looked
    cases present : t.ranks[rank]? with
    | none => simp [present] at looked
    | some entry =>
      simp only [present] at looked
      cases named : entry.tensors.find? (·.name == name) with
      | none => simp [named] at looked
      | some e =>
        simp only [named, map_eq_ok] at looked
        obtain ⟨pack, packed, rfl⟩ := looked
        exact entry_within (b := t.unpinned) present (List.mem_of_find?_eq_some named) packed
  | some base =>
    cases needsBase with
    | false => simp [baseContext] at made
    | true =>
      simp only [baseContext, Option.bind_some, found, if_true] at made
      cases present : t.ranks[rank]? with
      | none => simp [present] at made
      | some entry =>
        simp only [present, map_eq_ok, Option.some.injEq] at made
        obtain ⟨pack, packed, rfl⟩ := made
        simp only [resolver] at looked
        cases named : (entriesByName entry.tensors)[name]? with
        | none => simp [named] at looked
        | some e =>
          obtain rfl : (⟨e, t.compression, pack⟩ : BaseEntry) = answer := by
            simpa [named] using looked
          exact entry_within (b := t.unpinned) present (mem_of_entriesByName named) packed

end

variable [Zstd] [Xxh3]

omit [Zstd] [Xxh3] in
theorem loadEntries_congr {f g : TensorEntry → Except MoonclipError Bytes}
    {entries : List TensorEntry} (same : ∀ e ∈ entries, f e = g e) :
    loadEntries f entries = loadEntries g entries := by
  have pairs : ∀ e ∈ entries.filter (·.storage != .aliased),
      (do return (e.name, ← f e) : Except MoonclipError (String × Bytes)) =
        do return (e.name, ← g e) := fun e own => by rw [same e (List.mem_of_mem_filter own)]
  simp only [loadEntries]
  rw [mapM_congr pairs]

/-- One entry of the snapshot reads the same in both stores. -/
theorem loadTensor_congr {s : Snapshot} {e : TensorEntry} {pack : PackSource} {needsBase : Bool}
    (present : s.ranks[rank]? = some entry) (listed : e ∈ entry.tensors)
    (packed : packOf files entry = .ok pack)
    (own : Agree (s.filesOf (some rank)) files files')
    (base : ∀ id, s.baseSnapshotId = some id →
      ∃ b, Shared m m' id b ∧ Agree (b.filesOf (some rank)) files files')
    (made : baseContext rank files m needsBase s.baseSnapshotId = .ok ctx) :
    Tensor.loadTensor files' s.baseSnapshotId s.compression pack (resolver rank files' m' ctx) e =
      Tensor.loadTensor files s.baseSnapshotId s.compression pack (resolver rank files m ctx) e := by
  have bases : (s.baseSnapshotId.map fun id =>
      Tensor.loadBaseRaw files' id (resolver rank files' m' ctx id)) =
        s.baseSnapshotId.map fun id =>
          Tensor.loadBaseRaw files id (resolver rank files m ctx id) := by
    cases delta : s.baseSnapshotId with
    | none => rfl
    | some id =>
      obtain ⟨b, shared, agree⟩ := base id delta
      have lookup : resolver rank files' m' ctx id = resolver rank files m ctx id := by
        cases ctx with
        | none => exact findBase_congr shared agree
        | some base => rfl
      have within := resolver_within shared (delta ▸ made)
      simp only [Option.map_some, lookup]
      congr 1
      funext name
      exact Tensor.loadBaseRaw_congr fun current found looked => agree.mono (within current found looked)
  have raw : ∀ baseRaw, Tensor.loadRawWith baseRaw files' e s.compression pack =
      Tensor.loadRawWith baseRaw files e s.compression pack := fun _ =>
    Tensor.loadRawWith_congr (own.mono (entry_within present listed packed))
  simp only [Tensor.loadTensor, Tensor.loadTensorRaw, bases, raw]

/-- A load depends on the files the snapshot and its base name, and on what the
manifests say of these two. -/
theorem loadRank_congr {s s' : Snapshot} (same : s'.unpinned = s.unpinned)
    (own : Agree (s.filesOf (some rank)) files files')
    (base : ∀ id, s.baseSnapshotId = some id →
      ∃ b, Shared m m' id b ∧ Agree (b.filesOf (some rank)) files files') :
    loadRank rank files' m' s' = loadRank rank files m s := by
  obtain ⟨id, _, ranks, baseId, compression, _⟩ := Snapshot.alike_of_unpinned same
  simp only [loadRank, ranks, baseId, compression, id]
  cases present : s.ranks[rank]? with
  | none => rfl
  | some entry =>
    simp only [packOf_congr (own.mono fun p named => Snapshot.mem_filesOf present named)]
    cases packed : packOf files entry with
    | error e => rfl
    | ok pack =>
      simp only [bind, Except.bind]
      have ctx : baseContext rank files' m' (entry.tensors.any (·.storage != .full))
          s.baseSnapshotId =
            baseContext rank files m (entry.tensors.any (·.storage != .full)) s.baseSnapshotId := by
        cases delta : s.baseSnapshotId with
        | none => simp [baseContext]
        | some id =>
          obtain ⟨b, shared, agree⟩ := base id delta
          exact baseContext_congr shared agree
      rw [ctx]
      cases made : baseContext rank files m (entry.tensors.any (·.storage != .full))
          s.baseSnapshotId with
      | error e => rfl
      | ok ctx =>
        exact loadEntries_congr fun e listed => loadTensor_congr present listed packed own base made

end Coordinator
end Moonclip
