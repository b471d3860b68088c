import Moonclip.Saving

/-! A whole save: which tensors share another's bytes, and the snapshot that all of
them together make. -/
namespace Moonclip
open Library.Codec Library.Outcome Library.Tables

namespace Tensor

/-- A tensor no cast was recorded for is stored as it arrived. -/
theorem workingCopy_untouched {t : TensorData} {policy : DTypePolicy} {w : Working}
    (copied : workingCopy t policy = .ok w) (kept : w.originalDtype = none) :
    w.data = t.data ∧ w.dtype = t.dtype ∧ w.quantScale = none := by
  unfold workingCopy at copied
  extract_lets target at copied
  split at copied
  · simp only [bind_eq_ok] at copied
    obtain ⟨⟨data, dtype, scale⟩, cast, made⟩ := copied
    obtain rfl := Except.ok.inj made
    have same : dtype = t.dtype := by simpa using kept
    rcases Cast.castTensor_dtype cast with ⟨_, rfl, rfl⟩ | ⟨_, differ⟩
    · exact ⟨rfl, same, rfl⟩
    · exact absurd same differ
  · simp only [bind_eq_ok, Except.ok.injEq] at copied
    obtain ⟨_, rfl, made⟩ := copied
    obtain rfl := Except.ok.inj made
    exact ⟨rfl, rfl, rfl⟩

/-- The cast a save made can be undone. -/
theorem uncast_ok {t : TensorData} {policy : DTypePolicy} {w : Working} {e : TensorEntry}
    (copied : workingCopy t policy = .ok w) (dtype : e.dtype = w.dtype)
    (original : e.originalDtype = w.originalDtype) (scale : e.quantScale = w.quantScale) :
    ∃ out, uncast e w.data = .ok out := by
  unfold workingCopy at copied
  extract_lets target at copied
  have unchanged : ∀ data, w.originalDtype = none → ∃ out, uncast e data = .ok out :=
    fun data none => ⟨data, by simp [uncast, original, none]⟩
  split at copied
  · simp only [bind_eq_ok] at copied
    obtain ⟨⟨data, stored, quant⟩, cast, made⟩ := copied
    obtain rfl := Except.ok.inj made
    by_cases same : stored = t.dtype
    · exact unchanged _ (by simp [same])
    · obtain ⟨out, undone⟩ := Cast.uncast_ok cast same
      refine ⟨out, ?_⟩
      rw [← undone]
      simp [uncast, original, dtype, scale, same, Ne.symm same]
  · simp only [bind_eq_ok, Except.ok.injEq] at copied
    obtain ⟨_, rfl, made⟩ := copied
    obtain rfl := Except.ok.inj made
    exact unchanged _ (by simp)

@[simp] theorem workingCopy_none {t : TensorData} :
    workingCopy t .none = .ok ⟨t.data, t.dtype, none, none⟩ := by
  simp [workingCopy, pure, Except.pure, bind, Except.bind]

variable [Xxh3]

@[simp] theorem length_dedupPlan {seen : List ((String × String) × String)} {tensors : List TensorData} :
    (dedupPlan seen tensors).length = tensors.length := by
  induction tensors generalizing seen with
  | nil => rfl
  | cons t rest ih =>
    unfold dedupPlan
    split
    · simp [ih]
    · simp only
      split <;> simp [ih]

theorem dedupPlan_large {seen : List ((String × String) × String)} {tensors : List TensorData}
    {t : TensorData} {owner : String}
    (planned : (t, some owner) ∈ tensors.zip (dedupPlan seen tensors)) :
    Delta.deltaMinSize ≤ t.data.length := by
  induction tensors generalizing seen with
  | nil => simp at planned
  | cons head rest ih =>
    unfold dedupPlan at planned
    split at planned
    · exact ih (by simpa using planned)
    · rename_i large
      simp only at planned
      split at planned
      · rcases List.mem_cons.mp planned with same | later
        · obtain ⟨rfl, _⟩ := Prod.mk.inj same
          exact Nat.le_of_not_lt large
        · exact ih later
      · exact ih (by simpa using planned)

/-- What a tensor has in common with the one whose bytes stand for its own. -/
structure Shares (t u : TensorData) : Prop where
  hash : hashHex u.data = hashHex t.data
  dtype : u.dtype = t.dtype
  large : Delta.deltaMinSize ≤ t.data.length
  owner : Delta.deltaMinSize ≤ u.data.length

/-- Whoever owns a duplicate was planned to be written, or had been before. -/
theorem dedupPlan_owner {seen : List ((String × String) × String)} {tensors : List TensorData}
    {t : TensorData} {owner : String}
    (planned : (t, some owner) ∈ tensors.zip (dedupPlan seen tensors)) :
    ((hashHex t.data, t.dtype), owner) ∈ seen ∨
      ∃ u, (u, none) ∈ tensors.zip (dedupPlan seen tensors) ∧ u.name = owner ∧ Shares t u := by
  have size := dedupPlan_large planned
  induction tensors generalizing seen with
  | nil => simp at planned
  | cons head rest ih =>
    have later : ∀ {seen' first}, (t, some owner) ∈ rest.zip (dedupPlan seen' rest) →
        (((hashHex t.data, t.dtype), owner) ∈ seen' → ((hashHex t.data, t.dtype), owner) ∈ seen ∨
          head.name = owner ∧ Shares t head ∧ first = none) →
        ((hashHex t.data, t.dtype), owner) ∈ seen ∨
          ∃ u, (u, none) ∈ (head :: rest).zip (first :: dedupPlan seen' rest) ∧ u.name = owner ∧
            Shares t u := by
      intro seen' first here before
      rcases ih here with known | ⟨u, written, same⟩
      · rcases before known with known | ⟨name, shares, rfl⟩
        · exact .inl known
        · exact .inr ⟨head, by simp, name, shares⟩
      · exact .inr ⟨u, by simp [written], same⟩
    unfold dedupPlan at planned ⊢
    split at planned
    · rename_i small
      rw [if_pos small]
      have here : (t, some owner) ∈ rest.zip (dedupPlan seen rest) := by simpa using planned
      exact later here .inl
    · rename_i large
      rw [if_neg large]
      simp only at planned ⊢
      cases known : seen.lookup (hashHex head.data, head.dtype) with
      | some first =>
        simp only [known, List.zip_cons_cons, List.mem_cons, Prod.mk.injEq, Option.some.injEq] at planned ⊢
        rcases planned with ⟨rfl, rfl⟩ | here
        · obtain ⟨before, after, split, _⟩ := List.lookup_eq_some_iff.mp known
          exact .inl (by simp [split])
        · simpa using @later _ (some first) here .inl
      | none =>
        simp only [known, List.zip_cons_cons, List.mem_cons, Prod.mk.injEq, reduceCtorEq, and_false,
          false_or] at planned ⊢
        have found := @later _ none planned fun added => by
          rcases List.mem_cons.mp added with same | before
          · simp only [Prod.mk.injEq] at same
            exact .inr ⟨same.2.symm, ⟨same.1.1.symm, same.1.2.symm, size, Nat.le_of_not_lt large⟩, rfl⟩
          · exact .inl before
        simpa using found

end Tensor

/-- Two selections that between them take each item once keep all the names. -/
theorem perm_of_selections {α β γ ν : Type} {items : List α} {f : α → Option β} {g : α → Option γ}
    {name : α → ν} {nameLeft : β → ν} {nameRight : γ → ν}
    (once : ∀ a ∈ items, (∃ b, f a = some b ∧ nameLeft b = name a ∧ g a = none) ∨
      ∃ c, g a = some c ∧ nameRight c = name a ∧ f a = none) :
    ((items.filterMap f).map nameLeft ++ (items.filterMap g).map nameRight).Perm (items.map name) := by
  induction items with
  | nil => simp
  | cons a rest ih =>
    have later := ih fun b hb => once b (by simp [hb])
    rcases once a (by simp) with ⟨b, left, named, right⟩ | ⟨c, right, named, left⟩
    · simpa [left, right, named] using later
    · simpa [left, right, named] using List.perm_middle.trans (later.cons (name a))

theorem unique_sublist (planned : List (TensorData × Option String)) :
    List.Sublist (planned.filterMap fun (t, owner) => if owner.isNone then some t else none)
      (planned.map (·.1)) := by
  induction planned with
  | nil => exact .slnil
  | cons p rest ih =>
    obtain ⟨t, owner⟩ := p
    cases owner with
    | none => exact ih.cons_cons t
    | some owner => exact ih.cons t

/-- What a save makes of its tensors: each stored in one of the ways there are,
or an alias of one that is. -/
structure Processed [Zstd] [Xxh3] (base : Option Kept) (cfg : Config) (tensors : List TensorData)
    (pts : List ProcessedTensor) : Prop where
  each : ∀ pt ∈ pts,
    (∃ t ∈ tensors, ∃ w, Tensor.workingCopy t cfg.saveDtype = .ok w ∧
      Stored base cfg.compression t w pt) ∨
    ∃ t ∈ tensors, ∃ u ∈ tensors, ∃ w pu, Tensor.workingCopy u cfg.saveDtype = .ok w ∧
      Stored base cfg.compression u w pu ∧ pu ∈ pts ∧
      pt = ⟨Tensor.makeAliasEntry t pu.entry, none⟩ ∧ Tensor.Shares t u
  names : (pts.map (·.entry.name)).Perm (tensors.map (·.name))

/-- What `processAll` makes of a plan, whatever `R` is that each processed tensor
stands in to its own: one entry under each name, its own or an alias of the owner's. -/
structure Planned [Xxh3] (R : TensorData → ProcessedTensor → Prop) (tensors : List TensorData)
    (pts : List ProcessedTensor) : Prop where
  each : ∀ pt ∈ pts, (∃ t ∈ tensors, R t pt) ∨
    ∃ t ∈ tensors, ∃ u ∈ tensors, ∃ pu ∈ pts, R u pu ∧ pt = ⟨Tensor.makeAliasEntry t pu.entry, none⟩ ∧
      Tensor.Shares t u
  own : ∀ t, (t, none) ∈ tensors.zip (Tensor.dedupPlan [] tensors) → ∃ pt ∈ pts, R t pt
  shared : ∀ t owner, (t, some owner) ∈ tensors.zip (Tensor.dedupPlan [] tensors) →
    ∃ pu ∈ pts, pu.entry.name = owner ∧ ⟨Tensor.makeAliasEntry t pu.entry, none⟩ ∈ pts
  names : (pts.map (·.entry.name)).Perm (tensors.map (·.name))

theorem processAll_planned [Zstd] [Xxh3] {R : TensorData → ProcessedTensor → Prop} {cfg : Config}
    {files : Files} {cache : Option BaseCache} {tensors : List TensorData} {pts : List ProcessedTensor}
    (distinct : (tensors.map (·.name)).Nodup)
    (made : ∀ t pt, Tensor.processTensor files cache cfg.compression cfg.deltaMaxRatio cfg.saveDtype t =
      .ok pt → R t pt)
    (named : ∀ t pt, R t pt → pt.entry.name = t.name)
    (ran : Coordinator.processAll cfg files cache tensors = .ok pts) : Planned R tensors pts := by
  simp only [Coordinator.processAll, bind_eq_ok, pure_eq_ok, mapM_eq_ok] at ran
  obtain ⟨processed, done, rfl⟩ := ran
  generalize planning : tensors.zip (Tensor.dedupPlan [] tensors) = planned at done ⊢
  have all : planned.map (·.1) = tensors := by
    rw [← planning, List.map_fst_zip (by simp)]
  have given : ∀ t owner, (t, owner) ∈ planned → t ∈ tensors := by
    intro t owner there
    rw [← all]
    exact List.mem_map.mpr ⟨_, there, rfl⟩
  have stored := done.imp fun t pt ran => made t pt ran
  have names := map_eq_map (f := (·.name)) (g := (·.entry.name)) stored
    fun t pt how => (named t pt how).symm
  have fresh : ((processed.map (·.entry)).map (·.name)).Nodup := by
    rw [List.map_map]
    change (processed.map (·.entry.name)).Nodup
    rw [← names]
    refine distinct.sublist (List.Sublist.map _ ?_)
    conv_rhs => rw [← all]
    exact unique_sublist planned
  have written : ∀ t, (t, none) ∈ planned → ∃ pt ∈ processed, R t pt := by
    intro t there
    exact exists_result stored (List.mem_filterMap.mpr ⟨_, there, rfl⟩)
  have owned : ∀ t owner, (t, some owner) ∈ planned → ∃ u ∈ tensors, ∃ pu ∈ processed, R u pu ∧
      pu.entry.name = owner ∧ (entriesByName (processed.map (·.entry)))[owner]? = some pu.entry ∧
        Tensor.Shares t u := by
    intro t owner there
    rcases Tensor.dedupPlan_owner (planning.symm ▸ there) with known | ⟨u, chosen, rfl, shares⟩
    · simp at known
    · obtain ⟨pu, there', how⟩ := written u (planning ▸ chosen)
      have found := getElem?_entriesByName fresh (List.mem_map_of_mem there')
      rw [named u pu how] at found
      exact ⟨u, given u none (planning ▸ chosen), pu, there', how, named u pu how, found, shares⟩
  refine ⟨fun pt present => ?_, fun t there => ?_, fun t owner there => ?_, ?_⟩
  · rcases List.mem_append.mp present with own | shared
    · obtain ⟨t, chosen, how⟩ := exists_item stored own
      obtain ⟨⟨t', owner⟩, there, same⟩ := List.mem_filterMap.mp chosen
      simp only at same
      split at same
      · obtain rfl : t' = t := by simpa using same
        exact .inl ⟨t', given _ _ there, how⟩
      · contradiction
    · simp only [List.mem_map, List.mem_filterMap] at shared
      obtain ⟨e, ⟨⟨t, owner⟩, there, aliased⟩, rfl⟩ := shared
      cases owner with
      | none => simp at aliased
      | some owner =>
        obtain ⟨u, hu, pu, there', how, _, found, same⟩ := owned t owner there
        obtain rfl : Tensor.makeAliasEntry t pu.entry = e := by simpa [found] using aliased
        exact .inr ⟨t, given _ _ there, u, hu, pu, List.mem_append_left _ there', how, rfl, same⟩
  · obtain ⟨pt, there, how⟩ := written t (planning ▸ there)
    exact ⟨pt, List.mem_append_left _ there, how⟩
  · replace there : (t, some owner) ∈ planned := planning ▸ there
    obtain ⟨u, _, pu, there', _, name, found, _⟩ := owned t owner there
    refine ⟨pu, List.mem_append_left _ there', name, List.mem_append_right _ ?_⟩
    refine List.mem_map.mpr ⟨_, List.mem_filterMap.mpr ⟨_, there, ?_⟩, rfl⟩
    simp [found]
  · rw [List.map_append, List.map_map, ← names]
    have given : tensors.map (·.name) = planned.map (·.1.name) := by
      conv_lhs => rw [← all, List.map_map]
      rfl
    rw [given]
    refine perm_of_selections fun p there => ?_
    obtain ⟨t, owner⟩ := p
    cases owner with
    | none => exact .inl ⟨t, rfl, rfl, rfl⟩
    | some owner =>
      obtain ⟨u, _, pu, _, _, _, found, _⟩ := owned t owner there
      exact .inr ⟨Tensor.makeAliasEntry t pu.entry, by simp [found], rfl, rfl⟩

theorem processAll_processed [Zstd] [Xxh3] {base : Option Kept} {cfg : Config} {files : Files}
    {cache : Option BaseCache} {tensors : List TensorData} {pts : List ProcessedTensor}
    (distinct : (tensors.map (·.name)).Nodup)
    (cached : ∀ c, cache = some c → ∃ b, base = some b ∧ CacheOf b c ∧ Tensor.Legible b ∧
      files.find? b.path = some b.pack)
    (ran : Coordinator.processAll cfg files cache tensors = .ok pts) :
    Processed base cfg tensors pts := by
  have planned := processAll_planned
    (R := fun t pt => ∃ w, Tensor.workingCopy t cfg.saveDtype = .ok w ∧ Stored base cfg.compression t w pt)
    distinct (fun t pt ran => Tensor.processTensor_stored cached ran)
    (fun t pt ⟨w, _, how⟩ => how.describes.name) ran
  refine ⟨fun pt present => ?_, planned.names⟩
  rcases planned.each pt present with own | ⟨t, given, u, hu, pu, there, ⟨w, copied, how⟩, rfl, same⟩
  · exact .inl own
  · exact .inr ⟨t, given, u, hu, w, pu, copied, how, there, rfl, same⟩

/-- What a save leaves behind once its pack is written. -/
structure SavedPack [Zstd] [Xxh3] [SerdeJson] (base : Option Kept) (cfg : Config)
    (tensors : List TensorData) (pts : List ProcessedTensor) (k : Kept) : Prop where
  rank : cfg.rank = 0
  worldSize : cfg.worldSize = 1
  compression : k.snapshot.compression = cfg.compression
  baseId : k.snapshot.baseSnapshotId = base.map Kept.id
  ranks : k.snapshot.ranks = .ofList [(0, k.entry)]
  finalized : k.snapshot.finalized = true
  unpinned : k.snapshot.pinned = false
  processed : Processed base cfg tensors pts
  entry : k.entry = Coordinator.rankEntryOf 0 k.path
    ((Coordinator.assignOffsets Pack.headerLen pts).map (·.entry))
  written : ∃ parts page, Coordinator.packParts k.descriptor (Coordinator.blobsOf pts) = .ok parts ∧
    k.pack = pad page parts.flatten
  fits : k.pack.length < 2 ^ 64

section
variable [Zstd] [Xxh3] [SerdeJson] {base : Option Kept} {cfg : Config} {tensors : List TensorData}
  {pts : List ProcessedTensor} {k : Kept} {a : Archive} {buffers : Set Bytes}

/-- An entry of a saved snapshot is a tensor stored under its own name, or shares
the bytes of one. -/
inductive SavedEntry (base : Option Kept) (cfg : Config) (tensors : List TensorData) (k : Kept)
    (e : TensorEntry) : Prop where
  | own (t : TensorData) (w : Tensor.Working) (pt placed : ProcessedTensor) (given : t ∈ tensors)
      (copied : Tensor.workingCopy t cfg.saveDtype = .ok w)
      (stored : Stored base cfg.compression t w pt) (place : Coordinator.Placed k.pack pt placed)
      (entry : placed.entry = e)
  | shared (t u : TensorData) (w : Tensor.Working) (pu placed : ProcessedTensor) (given : t ∈ tensors)
      (owner : u ∈ tensors) (copied : Tensor.workingCopy u cfg.saveDtype = .ok w)
      (stored : Stored base cfg.compression u w pu) (place : Coordinator.Placed k.pack pu placed)
      (listed : placed.entry ∈ k.entry.tensors)
      (same : Tensor.Shares t u)
      (entry : e = { Tensor.makeAliasEntry t placed.entry with offset := e.offset })

namespace SavedPack

theorem placedTensors (saved : SavedPack base cfg tensors pts k) :
    k.entry.tensors = (Coordinator.assignOffsets Pack.headerLen pts).map (·.entry) := by
  rw [saved.entry]
  rfl

theorem laid (saved : SavedPack base cfg tensors pts k) :
    List.Forall₂ (Coordinator.Placed k.pack) pts (Coordinator.assignOffsets Pack.headerLen pts) := by
  obtain ⟨parts, page, made, pack⟩ := saved.written
  obtain ⟨encoded, header, _, head, laid⟩ := Coordinator.packParts_eq_ok made
  obtain ⟨n, filled⟩ := pad_eq page parts.flatten
  have size : header.length = Pack.headerLen := by rw [head, Pack.length_encodeHeader]
  have whole : k.pack = header ++ (Coordinator.blobsOf pts).flatten ++
      (encoded ++ List.replicate n 0) := by
    rw [pack, filled, laid, List.append_assoc]
  exact size ▸ Coordinator.assignOffsets_placed whole

theorem entries (saved : SavedPack base cfg tensors pts k) {e : TensorEntry}
    (listed : e ∈ k.entry.tensors) : SavedEntry base cfg tensors k e := by
  rw [saved.placedTensors, List.mem_map] at listed
  obtain ⟨placed, present, rfl⟩ := listed
  obtain ⟨pt, there, place⟩ := exists_item saved.laid present
  rcases saved.processed.each pt there with ⟨t, given, w, copied, stored⟩ |
    ⟨t, given, u, owner, w, pu, copied, stored, there', rfl, same⟩
  · exact .own t w pt placed given copied stored place rfl
  · obtain ⟨placed', present', place'⟩ := exists_result saved.laid there'
    obtain ⟨offset, moved⟩ := place.entry
    obtain ⟨offset', moved'⟩ := place'.entry
    refine .shared t u w pu placed' given owner copied stored place' ?_ same ?_
    · rw [saved.placedTensors]
      exact List.mem_map_of_mem present'
    · rw [moved, moved']
      rfl

theorem names (saved : SavedPack base cfg tensors pts k) :
    (k.entry.tensors.map (·.name)).Perm (tensors.map (·.name)) := by
  have same := map_eq_map (f := fun pt : ProcessedTensor => pt.entry.name)
    (g := fun pt : ProcessedTensor => pt.entry.name) saved.laid fun pt placed place => by
      obtain ⟨offset, moved⟩ := place.entry
      rw [moved]
  rw [saved.placedTensors, List.map_map]
  exact same ▸ saved.processed.names

theorem baseIn (saved : SavedPack base cfg tensors pts k) (bases : ∀ b, base = some b → a b.id = some b) :
    k.baseIn a = base := by
  cases base with
  | none => simp [Kept.baseIn, saved.baseId]
  | some b => simp [Kept.baseIn, saved.baseId, bases b rfl]

theorem filename (saved : SavedPack base cfg tensors pts k) {e : TensorEntry}
    (listed : e ∈ k.entry.tensors) : e.filename = none := by
  cases saved.entries listed with
  | own t w pt placed _ _ stored place entry => exact entry ▸ (stored.describes.place place).filename
  | shared t u w pu placed _ _ _ _ _ _ _ entry => rw [entry]; rfl

/-- Every entry has a holder, whose bytes are those of a tensor with the same hash. -/
theorem holder (saved : SavedPack base cfg tensors pts k) {e : TensorEntry}
    (listed : e ∈ k.entry.tensors) : ∃ t ∈ tensors, ∃ u ∈ tensors, ∃ w pt placed,
      Tensor.workingCopy u cfg.saveDtype = .ok w ∧ Stored base cfg.compression u w pt ∧
      Coordinator.Placed k.pack pt placed ∧ Holder k.entry.tensors e placed.entry ∧
      e.name = t.name ∧ e.shape = t.shape ∧ e.dtype = w.dtype ∧ e.originalDtype = w.originalDtype ∧
      e.hashRaw = placed.entry.hashRaw ∧ e.rawSize = placed.entry.rawSize ∧
      hashHex u.data = hashHex t.data ∧ u.dtype = t.dtype := by
  cases saved.entries listed with
  | own t w pt placed given copied stored place entry =>
    subst entry
    have described := stored.describes.place place
    exact ⟨t, given, t, given, w, pt, placed, copied, stored, place,
      ⟨listed, described.own, .inl rfl⟩, described.name, described.shape, described.dtype,
      described.originalDtype, rfl, rfl, rfl, rfl⟩
  | shared t u w pu placed given owner copied stored place there same entry =>
    have described := stored.describes.place place
    refine ⟨t, given, u, owner, w, pu, placed, copied, stored, place,
      ⟨there, described.own, .inr ⟨?_, ?_⟩⟩, ?_, ?_, ?_, ?_, ?_, ?_, same.hash, same.dtype⟩
    · rw [entry]; rfl
    · rw [entry]; rfl
    · rw [entry]; rfl
    · rw [entry]; rfl
    · rw [entry]; exact described.dtype
    · rw [entry]; exact described.originalDtype
    · rw [entry]; rfl
    · rw [entry]; rfl

variable [LawfulZstd]

theorem readable (saved : SavedPack base cfg tensors pts k) (distinct : (tensors.map (·.name)).Nodup)
    (faithful : Set.InjOn hashHex buffers)
    (known : ∀ t ∈ tensors, ∀ w, Tensor.workingCopy t cfg.saveDtype = .ok w → w.data ∈ buffers)
    (bases : ∀ b, base = some b → a b.id = some b ∧ b.Base buffers a) :
    Readable buffers k.snapshot.compression k.pack ((k.baseIn a).map Kept.baseRaw)
      k.entry.tensors where
  distinct := saved.names.nodup_iff.mpr distinct
  inPack _ listed := saved.filename listed
  holders e listed := by
    obtain ⟨t, _, u, _, w, pt, placed, _, _, _, holder, _, _, _, _, hash, size, _⟩ :=
      saved.holder listed
    exact ⟨placed.entry, holder, hash, size⟩
  own e listed own := by
    rw [saved.baseIn fun b is => (bases b is).1, saved.compression]
    cases saved.entries listed with
    | own t w pt placed given copied stored place entry =>
      subst entry
      have described := stored.describes.place place
      obtain ⟨out, uncast⟩ := Tensor.uncast_ok copied described.dtype described.originalDtype
        described.quantScale
      exact ⟨w.data, known t given w copied, out,
        stored.reads place faithful (known t given w copied) fun b is => (bases b is).2, uncast,
        described.hashRaw, described.rawSize⟩
    | shared t u w pu placed _ _ _ _ _ _ _ entry => exact absurd (by rw [entry]; rfl) own

omit [LawfulZstd] in
theorem shaped (saved : SavedPack base cfg tensors pts k)
    (bases : ∀ b, base = some b → a b.id = some b ∧ b.snapshot.baseSnapshotId = none) :
    k.Shaped a where
  ranks := saved.ranks
  rank := by
    rw [saved.entry]
    rfl
  packed := by
    rw [saved.entry]
    rfl
  finalized := saved.finalized
  unpinned := saved.unpinned
  inPack _ listed := saved.filename listed
  base id delta := by
    rw [saved.baseId] at delta
    obtain ⟨b, from_, rfl⟩ := Option.map_eq_some_iff.mp delta
    exact ⟨b, (bases b from_).1, rfl, (bases b from_).2⟩
  full root e listed own := by
    have alone : base = none := by simpa [saved.baseId] using root
    cases saved.entries listed with
    | own t w pt placed _ _ stored place entry => exact entry ▸ (alone ▸ stored).rooted place
    | shared t u w pu placed _ _ _ _ _ _ _ entry => exact absurd (by rw [entry]; rfl) own

omit [LawfulZstd] in
theorem intact (saved : SavedPack base cfg tensors pts k) (files : Files)
    (found : files.find? k.path = some k.pack) :
    Recovery.snapshotDataIsIntact files k.snapshot = true := by
  have packFile : k.entry.packFile = some k.path := by
    rw [saved.entry]
    rfl
  simp only [Recovery.snapshotDataIsIntact, List.all_eq_true]
  rintro ⟨rank, entry⟩ listed e here
  rw [saved.ranks, Std.ExtTreeMap.mem_toList_iff_getElem?_eq_some] at listed
  obtain ⟨_, rfl⟩ : rank = 0 ∧ entry = k.entry := by simpa using mem_of_getElem?_ofList listed
  rw [packFile]
  cases saved.entries here with
  | own t w pt placed _ _ stored place entry => exact entry ▸ stored.intact place found
  | shared t u w pu placed _ _ _ _ _ _ _ entry =>
    rw [entry]
    rfl

theorem sound [LawfulSerdeJson] (saved : SavedPack base cfg tensors pts k)
    (distinct : (tensors.map (·.name)).Nodup) (faithful : Set.InjOn hashHex buffers)
    (known : ∀ t ∈ tensors, ∀ w, Tensor.workingCopy t cfg.saveDtype = .ok w → w.data ∈ buffers)
    (bases : ∀ b, base = some b → a b.id = some b ∧ b.Base buffers a) : k.Sound buffers a where
  toShaped := saved.shaped fun b is => ⟨(bases b is).1, (bases b is).2.root⟩
  readable := saved.readable distinct faithful known bases
  described files found := by
    obtain ⟨parts, page, made, pack⟩ := saved.written
    exact Coordinator.descriptorOf_pack made (pack ▸ found) (pack ▸ saved.fits)
  intact := saved.intact

/-- With nothing cast, a saved snapshot loads as the tensors it was given. -/
theorem given (saved : SavedPack base cfg tensors pts k) (distinct : (tensors.map (·.name)).Nodup)
    (uncast : cfg.saveDtype = .none) (faithful : Set.InjOn hashHex buffers)
    (known : ∀ t ∈ tensors, t.data ∈ buffers)
    (bases : ∀ b, base = some b → a b.id = some b ∧ b.Base buffers a)
    (readable : Readable buffers k.snapshot.compression k.pack ((k.baseIn a).map Kept.baseRaw)
      k.entry.tensors) :
    k.loads a = .ok (.ofList (tensors.map fun t => (t.name, t.data))) ∧
      ∀ t ∈ tensors, ∃ e ∈ k.entry.tensors, e.name = t.name ∧ e.shape = t.shape ∧
        e.dtype = t.dtype ∧ e.originalDtype = none := by
  have keys : ((tensors.map fun t => (t.name, t.data)).map Prod.fst).Nodup := by
    rwa [List.map_map]
  -- what an entry holds, and whose name it bears
  have content : ∀ e ∈ k.entry.tensors, ∃ t ∈ tensors, e.name = t.name ∧ e.shape = t.shape ∧
      e.dtype = t.dtype ∧ e.originalDtype = none ∧ ∃ h, Holder k.entry.tensors e h ∧
        rawOf k.snapshot.compression k.pack ((k.baseIn a).map Kept.baseRaw) h = .ok t.data ∧
          Tensor.uncast h t.data = .ok t.data := by
    intro e listed
    obtain ⟨t, given, u, owner, w, pt, placed, copied, stored, place, holder, name, shape, dtype,
      original, _, _, hash, dtypes⟩ := saved.holder listed
    rw [uncast, Tensor.workingCopy_none] at copied
    obtain rfl := Except.ok.inj copied
    have same : u.data = t.data := faithful (known u owner) (known t given) hash
    have described := stored.describes.place place
    refine ⟨t, given, name, shape, by rw [dtype, dtypes], original, placed.entry, holder, ?_, ?_⟩
    · rw [saved.baseIn fun b is => (bases b is).1, saved.compression, ← same]
      exact stored.reads place faithful (known u owner) fun b is => (bases b is).2
    · simp [Tensor.uncast, described.originalDtype]
  have named : ∀ t ∈ tensors, ∃ e ∈ k.entry.tensors, e.name = t.name := by
    intro t given
    exact List.mem_map.mp (saved.names.symm.subset (List.mem_map_of_mem given))
  refine ⟨?_, fun t given => ?_⟩
  · obtain ⟨out, loaded, spec⟩ := Kept.loads_ok readable
    rw [loaded]
    congr 1
    refine Std.ExtTreeMap.ext_getElem? fun n => Option.ext fun data => ?_
    rw [spec, getElem?_ofList_eq_some keys, List.mem_map]
    constructor
    · rintro ⟨e, listed, rfl, h, holder, raw, read, undone⟩
      obtain ⟨t, given, name, _, _, _, h', holder', read', undone'⟩ := content e listed
      obtain rfl := holder.unique readable.distinct holder'
      obtain rfl : raw = t.data := by simpa [read] using read'
      obtain rfl : data = t.data := by simpa [undone] using undone'
      exact ⟨t, given, by rw [name]⟩
    · rintro ⟨t, given, same⟩
      obtain ⟨rfl, rfl⟩ := Prod.mk.injEq .. ▸ same
      obtain ⟨e, listed, name⟩ := named t given
      obtain ⟨t', given', name', _, _, _, h, holder, read, undone⟩ := content e listed
      obtain rfl : t' = t := List.inj_on_of_nodup_map distinct given' given (name'.symm.trans name)
      exact ⟨e, listed, name, h, holder, t'.data, read, undone⟩
  · obtain ⟨e, listed, name⟩ := named t given
    obtain ⟨t', given', name', shape, dtype, original, _⟩ := content e listed
    obtain rfl : t' = t := List.inj_on_of_nodup_map distinct given' given (name'.symm.trans name)
    exact ⟨e, listed, name, shape, dtype, original⟩

/-- What is kept in memory of a full snapshot is what its pack holds. -/
theorem retains (saved : SavedPack none cfg tensors pts k) (distinct : (tensors.map (·.name)).Nodup)
    (faithful : Set.InjOn hashHex buffers)
    (known : ∀ t ∈ tensors, ∀ w, Tensor.workingCopy t cfg.saveDtype = .ok w → w.data ∈ buffers) :
    Retains k (Coordinator.retainBase k.id tensors pts).tensors := by
  intro name bytes held e listed named full
  simp only [Coordinator.retainBase] at held
  have bound := mem_of_getElem?_ofList held
  simp only [List.mem_map, List.mem_filter, List.contains_eq_mem, decide_eq_true_eq,
    Prod.mk.injEq] at bound
  obtain ⟨t, ⟨given, pt, ⟨present, isFull, kept⟩, same⟩, rfl, rfl⟩ := bound
  obtain ⟨placed, there, place⟩ := exists_result saved.laid present
  have here : placed.entry ∈ k.entry.tensors := by
    rw [saved.placedTensors]
    exact List.mem_map_of_mem there
  have name : e.name = placed.entry.name := by
    obtain ⟨offset, moved⟩ := place.entry
    rw [named, moved, same]
  obtain rfl := eq_of_name (saved.names.nodup_iff.mpr distinct) listed here name
  rcases saved.processed.each pt present with ⟨t', given', w, copied, stored⟩ |
    ⟨_, _, _, _, _, _, _, _, _, rfl, _⟩
  · have described := stored.describes
    obtain rfl : t' = t :=
      List.inj_on_of_nodup_map distinct given' given (described.name.symm.trans same)
    have original : w.originalDtype = none := by simpa [described.originalDtype] using kept
    rw [← (Tensor.workingCopy_untouched copied original).1, saved.compression]
    exact stored.reads (a := fun _ => none) place faithful (known t' given' w copied) nofun
  · contradiction

end SavedPack

end
end Moonclip
