import Moonclip.Entries
import Moonclip.Packs

/-! The archive: every snapshot of one rank ever written, as it was written,
whatever became of it since. A store that holds a snapshot's pack and its base's
loads what the archive says. -/
namespace Moonclip
open Library.Outcome Library.Tables

/-- A snapshot as its save wrote it: unpinned, with the bytes of its pack. -/
structure Kept where
  snapshot : Snapshot
  entry : RankEntry
  pack : Bytes

abbrev Archive := Uuid → Option Kept

section
variable [Zstd] [Xxh3]

/-- The bytes a tensor of its own is stored as, before any cast is undone. -/
def rawOf (algo : CompressionAlgo) (pack : Bytes)
    (baseRaw : Option (String → Except MoonclipError Bytes)) (e : TensorEntry) :
    Except MoonclipError Bytes :=
  Tensor.loadRawWith baseRaw .empty e algo (.whole pack)

/-- Entries that read back from one pack, to bytes that bear their hash. -/
structure Readable (buffers : Set Bytes) (algo : CompressionAlgo) (pack : Bytes)
    (baseRaw : Option (String → Except MoonclipError Bytes)) (entries : List TensorEntry) : Prop where
  distinct : (entries.map (·.name)).Nodup
  inPack : ∀ e ∈ entries, e.filename = none
  own : ∀ e ∈ entries, e.storage ≠ .aliased → ∃ raw ∈ buffers, ∃ out,
    rawOf algo pack baseRaw e = .ok raw ∧ Tensor.uncast e raw = .ok out ∧
      e.hashRaw = hashHex raw ∧ e.rawSize = raw.length
  holders : ∀ e ∈ entries, ∃ t, Holder entries e t ∧ e.hashRaw = t.hashRaw ∧ e.rawSize = t.rawSize

theorem rawOf_full {algo : CompressionAlgo} {pack : Bytes}
    {baseRaw baseRaw' : Option (String → Except MoonclipError Bytes)} {e : TensorEntry}
    (full : e.storage = .full) : rawOf algo pack baseRaw e = rawOf algo pack baseRaw' e := by
  simp only [rawOf, Tensor.loadRawWith, full]

namespace Kept
variable (k : Kept)

def id : Uuid := k.snapshot.id
def path : Path := packPath k.id 0

def ctx : Coordinator.BaseCtx :=
  ⟨entriesByName k.entry.tensors, k.snapshot.compression, .whole k.pack⟩

/-- What the snapshot answers as a base. -/
def baseRaw : String → Except MoonclipError Bytes :=
  Tensor.loadBaseRaw .empty k.id (Coordinator.resolver 0 .empty .default (some k.ctx) k.id)

def baseIn (a : Archive) : Option Kept := k.snapshot.baseSnapshotId.bind a

/-- What the snapshot loads as. -/
def loads (a : Archive) : Except MoonclipError TensorMap :=
  Coordinator.loadEntries (fun e => do
    let raw ← rawOf k.snapshot.compression k.pack ((k.baseIn a).map baseRaw) e
    Tensor.uncast e raw) k.entry.tensors

/-- The description its pack carries. -/
def descriptor : PackDescriptor where
  snapshotId := k.id
  step := k.snapshot.step
  createdAt := k.snapshot.createdAt
  baseSnapshotId := k.snapshot.baseSnapshotId
  metadata := k.snapshot.metadata
  compression := k.snapshot.compression
  worldSize := 1
  rank := k.entry

/-- How a snapshot of one rank is laid out. -/
structure Shaped (a : Archive) : Prop where
  ranks : k.snapshot.ranks = .ofList [(0, k.entry)]
  rank : k.entry.rank = 0
  packed : k.entry.packFile = some k.path
  finalized : k.snapshot.finalized = true
  unpinned : k.snapshot.pinned = false
  inPack : ∀ e ∈ k.entry.tensors, e.filename = none
  base : ∀ id, k.snapshot.baseSnapshotId = some id →
    ∃ b, a id = some b ∧ b.id = id ∧ b.snapshot.baseSnapshotId = none
  full : k.snapshot.baseSnapshotId = none →
    ∀ e ∈ k.entry.tensors, e.storage ≠ .aliased → e.storage = .full

end Kept

/-- A store shows a snapshot: it lists it, up to the pin, with its base, and has
both packs. -/
structure Shows (a : Archive) (files : Files) (m : Manifest) (k : Kept) (s : Snapshot) : Prop where
  same : s.unpinned = k.snapshot
  pack : files.find? k.path = some k.pack
  base : ∀ id, s.baseSnapshotId = some id → ∃ b t, a id = some b ∧ m.findSnapshot id = some t ∧
    t.unpinned = b.snapshot ∧ files.find? b.path = some b.pack

end

namespace Kept
variable {a : Archive} {k : Kept} {files files' : Files} {m : Manifest} {s : Snapshot}

theorem Shaped.rankEntry (shaped : k.Shaped a) : k.snapshot.ranks[0]? = some k.entry := by
  rw [shaped.ranks]
  exact getElem?_ofList_of_mem (by simp) (by simp)

theorem Shaped.packOf (shaped : k.Shaped a) (pack : files.find? k.path = some k.pack) :
    Coordinator.packOf files k.entry = .ok (.whole k.pack) := by
  simp [Coordinator.packOf, shaped.packed, Storage.get, pack]

/-- Entries without files of their own read nothing but the pack. -/
theorem Shaped.agree (shaped : k.Shaped a) {e : TensorEntry} (listed : e ∈ k.entry.tensors) :
    Agree (e.filename.toList ++ (PackSource.whole k.pack).paths) files files' := by
  simp [Agree, shaped.inPack e listed, PackSource.paths]

section
variable [Zstd] [Xxh3]

theorem baseRaw_eq (shaped : k.Shaped a) :
    Tensor.loadBaseRaw files k.id (Coordinator.resolver 0 files m (some k.ctx) k.id) = k.baseRaw := by
  funext name
  refine Tensor.loadBaseRaw_congr fun current found looked => ?_
  simp only [Coordinator.resolver, ctx] at looked
  cases named : (entriesByName k.entry.tensors)[current]? with
  | none => simp [named] at looked
  | some e =>
    obtain rfl : (⟨e, k.snapshot.compression, .whole k.pack⟩ : BaseEntry) = found := by
      simpa [named] using looked
    exact shaped.agree (mem_of_entriesByName named)

omit [Zstd] [Xxh3] in
theorem baseContext_eq {b : Kept} {t : Snapshot} {id : Uuid} (shaped : b.Shaped a)
    (found : m.findSnapshot id = some t) (same : t.unpinned = b.snapshot)
    (pack : files.find? b.path = some b.pack) (needsBase : Bool) :
    Coordinator.baseContext 0 files m needsBase (some id) =
      .ok (if needsBase then some b.ctx else none) := by
  have alike := Snapshot.alike_of_unpinned (same.trans (Snapshot.unpinned_of shaped.unpinned).symm)
  cases needsBase with
  | false => rfl
  | true =>
    have entry : t.ranks[0]? = some b.entry := alike.ranks ▸ shaped.rankEntry
    simp [Coordinator.baseContext, found, entry, shaped.packOf pack, ctx, alike.compression]

/-- What a load finds of the base is what the archive has of it. -/
theorem loadTensorRaw_eq (shaped : k.Shaped a) (bases : ∀ b, k.baseIn a = some b → b.Shaped a)
    (shows : Shows a files m k s) (delta : s.baseSnapshotId = k.snapshot.baseSnapshotId) :
    ∃ ctx, Coordinator.baseContext 0 files m (k.entry.tensors.any (·.storage != .full))
        s.baseSnapshotId = .ok ctx ∧
      ∀ e ∈ k.entry.tensors, Tensor.loadTensorRaw files s.baseSnapshotId k.snapshot.compression
        (.whole k.pack) (Coordinator.resolver 0 files m ctx) e =
          rawOf k.snapshot.compression k.pack ((k.baseIn a).map baseRaw) e := by
  have raw : ∀ e ∈ k.entry.tensors, ∀ baseRaw,
      Tensor.loadRawWith baseRaw files e k.snapshot.compression (.whole k.pack) =
        rawOf k.snapshot.compression k.pack baseRaw e :=
    fun e listed _ => Tensor.loadRawWith_congr (shaped.agree listed)
  cases kind : s.baseSnapshotId with
  | none =>
    have alone : k.baseIn a = none := by simp [baseIn, ← delta, kind]
    refine ⟨none, by simp [Coordinator.baseContext], fun e listed => ?_⟩
    simp only [Tensor.loadTensorRaw, Option.map_none, alone, raw e listed]
  | some id =>
    obtain ⟨b, t, kept, found, same, pack⟩ := shows.base id kind
    have base : k.baseIn a = some b := by simp [baseIn, ← delta, kind, kept]
    obtain ⟨_, kept', isId, _⟩ := shaped.base id (delta ▸ kind)
    obtain rfl : b = _ := by simpa [kept] using kept'
    refine ⟨_, baseContext_eq (bases b base) found same pack _, fun e listed => ?_⟩
    simp only [Tensor.loadTensorRaw, Option.map_some, raw e listed, base]
    by_cases full : e.storage = .full
    · exact rawOf_full full
    · have needed : k.entry.tensors.any (·.storage != .full) = true :=
        List.any_eq_true.mpr ⟨e, listed, by simpa using full⟩
      rw [if_pos needed, ← isId, baseRaw_eq (bases b base)]

/-- A store loads a snapshot it shows as the archive has it. -/
theorem loadRank_eq (shaped : k.Shaped a) (bases : ∀ b, k.baseIn a = some b → b.Shaped a)
    (shows : Shows a files m k s) : Coordinator.loadRank 0 files m s = k.loads a := by
  have alike := Snapshot.alike_of_unpinned
    (shows.same.trans (Snapshot.unpinned_of shaped.unpinned).symm)
  have entry : s.ranks[0]? = some k.entry := alike.ranks ▸ shaped.rankEntry
  obtain ⟨ctx, made, reads⟩ := loadTensorRaw_eq shaped bases shows alike.base
  simp only [Coordinator.loadRank, entry, shaped.packOf shows.pack, loads, bind, Except.bind, made]
  refine Coordinator.loadEntries_congr fun e listed => ?_
  simp only [Tensor.loadTensor, alike.compression, reads e listed]
  rfl

/-- A snapshot that loads, and that its pack alone is enough to put back. -/
structure Sound [SerdeJson] (buffers : Set Bytes) (a : Archive) (k : Kept) : Prop
    extends k.Shaped a where
  readable : Readable buffers k.snapshot.compression k.pack ((k.baseIn a).map baseRaw)
    k.entry.tensors
  described : ∀ files, files.find? k.path = some k.pack →
    Recovery.descriptorOf files (.uuid k.id) k.path = some k.descriptor
  intact : ∀ files, files.find? k.path = some k.pack →
    Recovery.snapshotDataIsIntact files k.snapshot = true

variable {buffers : Set Bytes}

/-- A full snapshot answers, for each of its names, with the bytes of the holder. -/
theorem baseRaw_holder {e t : TensorEntry} (distinct : (k.entry.tensors.map (·.name)).Nodup)
    (listed : e ∈ k.entry.tensors) (holder : Holder k.entry.tensors e t) :
    k.baseRaw e.name = rawOf k.snapshot.compression k.pack none t := by
  have found : ∀ u ∈ k.entry.tensors,
      Coordinator.resolver 0 .empty .default (some k.ctx) k.id u.name =
        .ok ⟨u, k.snapshot.compression, .whole k.pack⟩ := by
    intro u present
    simp [Coordinator.resolver, ctx, getElem?_entriesByName distinct present]
  have resolved : Tensor.resolveBaseEntry k.id e.name
      (Coordinator.resolver 0 .empty .default (some k.ctx) k.id) =
        .ok ⟨t, k.snapshot.compression, .whole k.pack⟩ := by
    simp only [Tensor.resolveBaseEntry, Tensor.resolveBaseEntry.go, found e listed, bind, Except.bind]
    rcases holder.named with rfl | ⟨aliased, target⟩
    · simp [holder.own, pure, Except.pure]
    · simp [aliased, target, found t holder.listed, holder.own, pure, Except.pure]
  simp only [baseRaw, Tensor.loadBaseRaw, resolved, bind, Except.bind]
  rfl

/-- A sound snapshot loads, each name with the bytes its holder gives. -/
theorem loads_ok (readable : Readable buffers k.snapshot.compression k.pack
    ((k.baseIn a).map baseRaw) k.entry.tensors) :
    ∃ out, k.loads a = .ok out ∧ ∀ (n : String) data, out[n]? = some data ↔
      ∃ e ∈ k.entry.tensors, e.name = n ∧ ∃ t, Holder k.entry.tensors e t ∧ ∃ raw,
        rawOf k.snapshot.compression k.pack ((k.baseIn a).map baseRaw) t = .ok raw ∧
          Tensor.uncast t raw = .ok data := by
  obtain ⟨out, loaded, spec⟩ := Coordinator.loadEntries_ok
    (f := fun e => do
      let raw ← rawOf k.snapshot.compression k.pack ((k.baseIn a).map baseRaw) e
      Tensor.uncast e raw) readable.distinct
    (fun e listed => (readable.holders e listed).imp fun _ => And.left) fun e listed own => by
      obtain ⟨raw, _, data, stored, undone, _⟩ := readable.own e listed own
      exact ⟨data, by simp [stored, undone]⟩
  exact ⟨out, loaded, by simpa using spec⟩

end
end Kept
end Moonclip
