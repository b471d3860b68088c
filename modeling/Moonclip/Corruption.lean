import Moonclip.Library.Agreement
import Moonclip.Concurrency

/-! Bytes put in place of a store's files: what is loaded from them is what was loaded
before, or nothing is. -/
namespace Moonclip
open Library.Files Library.Outcome Library.Steps

namespace Tensor
variable [Zstd] [Xxh3] {files files' : Files} {baseId : Option Uuid} {algo : CompressionAlgo}
  {pack pack' : PackSource}
  {find find' : Uuid → String → Except MoonclipError BaseEntry} {entry : TensorEntry} {buffers : Set Bytes}

/-- The bytes whose hash is checked when a tensor is loaded: of a full one what is
stored, of a delta what comes out. -/
def Hashed (files : Files) (baseId : Option Uuid) (pack : PackSource)
    (find : Uuid → String → Except MoonclipError BaseEntry) (algo : CompressionAlgo)
      (entry : TensorEntry) : Set Bytes :=
  match entry.storage with
  | .full => {x | extractCompressed files entry pack = .ok x}
  | .skipped => {x | ∃ id found, baseId = some id ∧ resolveBaseEntry id entry.name (find id) = .ok found ∧
      extractCompressed files found.entry found.pack = .ok x}
  | .deltaXor => {x | loadTensorRaw files baseId algo pack find entry = .ok x}
  | .aliased => ∅

/-- The same entry of the base, wherever its bytes are to come from. -/
def SameBase (find find' : String → Except MoonclipError BaseEntry) : Prop :=
  ∀ name found found', find name = .ok found → find' name = .ok found' →
    found'.entry = found.entry ∧ found'.compression = found.compression ∧ found.entry.Sealed

omit [Zstd] [Xxh3] in
theorem resolveBaseEntry_same {id : Uuid} {one two : String → Except MoonclipError BaseEntry}
    (same : SameBase one two) : SameBase (fun name => resolveBaseEntry id name one) fun name =>
      resolveBaseEntry id name two := by
  intro name
  unfold resolveBaseEntry
  suffices go : ∀ hops current, ∀ found found', resolveBaseEntry.go id name one hops current = .ok found →
      resolveBaseEntry.go id name two hops current = .ok found' →
      found'.entry = found.entry ∧ found'.compression = found.compression ∧ found.entry.Sealed from go 8 name
  intro hops
  induction hops with
  | zero =>
    intro current found found' left
    simp [resolveBaseEntry.go] at left
  | succ hops ih =>
    intro current found found' left right
    simp only [resolveBaseEntry.go, bind_eq_ok] at left right
    obtain ⟨here, first, left⟩ := left
    obtain ⟨here', first', right⟩ := right
    obtain ⟨entry, algo, known⟩ := same current here here' first first'
    rw [entry] at right
    split at left
    · rename_i own
      rw [if_pos own] at right
      obtain rfl := pure_eq_ok.mp left
      obtain rfl := pure_eq_ok.mp right
      exact ⟨entry, algo, known⟩
    · rename_i aliased
      rw [if_neg aliased] at right
      cases target : here.entry.aliasOf with
      | none => simp [target] at left
      | some target' =>
        simp only [target] at left right
        exact ih target' found found' left right

theorem loadFull_agrees (known : entry.hashCompressed.isSome = true) (distinct : Set.InjOn hashHex buffers)
    (before : ∀ x, extractCompressed files entry pack = .ok x → x ∈ buffers)
    (after : ∀ x, extractCompressed files' entry pack' = .ok x → x ∈ buffers) :
    Agrees (loadFull files entry algo pack) (loadFull files' entry algo pack') := by
  obtain ⟨expected, recorded⟩ := Option.isSome_iff_exists.mp known
  intro a b left right
  simp only [loadFull, recorded, bind_eq_ok] at left right
  obtain ⟨x, read, left⟩ := left
  obtain ⟨y, read', right⟩ := right
  split at left
  · simp at left
  · rename_i hash
    split at right
    · simp at right
    · rename_i hash'
      have same : hashHex x = hashHex y := by
        rw [not_not.mp hash, not_not.mp hash']
      obtain rfl := distinct (before x read) (after y read') same
      exact Except.ok.inj (right.symm.trans left)

/-- What an entry of the base reads as, if it is full; nothing else of a base is read. -/
theorem loadRawWith_none_agrees (own : entry.Sealed) (distinct : Set.InjOn hashHex buffers)
    (before : ∀ x, extractCompressed files entry pack = .ok x → x ∈ buffers)
    (after : ∀ x, extractCompressed files' entry pack' = .ok x → x ∈ buffers) :
    Agrees (loadRawWith none files entry algo pack) (loadRawWith none files' entry algo pack') := by
  cases kind : entry.storage with
  | full =>
    simp only [loadRawWith, kind]
    exact loadFull_agrees (own kind) distinct before after
  | skipped =>
    intro a b left
    simp [loadRawWith, kind] at left
  | deltaXor =>
    intro a b left
    simp [loadRawWith, kind] at left
  | aliased =>
    intro a b left
    simp [loadRawWith, kind] at left

/-- A delta that is returned hashes to what its entry says. -/
theorem hashRaw_of_delta {x : Bytes} (kind : entry.storage = .deltaXor)
    (loaded : loadTensorRaw files baseId algo pack find entry = .ok x) : hashHex x = entry.hashRaw := by
  simp only [loadTensorRaw, loadRawWith, kind, bind_eq_ok] at loaded
  obtain ⟨delta, _, loaded⟩ := loaded
  cases baseId with
  | none => simp at loaded
  | some id =>
    simp only [Option.map_some, bind_eq_ok] at loaded
    obtain ⟨_, _, raw, _, loaded⟩ := loaded
    split at loaded
    · simp at loaded
    · rename_i hash
      obtain rfl := pure_eq_ok.mp loaded
      exact not_not.mp hash

theorem loadTensorRaw_agrees (own : entry.Sealed)
    (same : ∀ id, baseId = some id → SameBase (find id) (find' id))
    (distinct : Set.InjOn hashHex buffers) (before : Hashed files baseId pack find algo entry ⊆ buffers)
    (after : Hashed files' baseId pack' find' algo entry ⊆ buffers) :
    Agrees (loadTensorRaw files baseId algo pack find entry)
      (loadTensorRaw files' baseId algo pack' find' entry) := by
  cases kind : entry.storage with
  | full =>
    simp only [Hashed, kind] at before after
    simp only [loadTensorRaw, loadRawWith, kind]
    exact loadFull_agrees (own kind) distinct before after
  | skipped =>
    simp only [Hashed, kind] at before after
    simp only [loadTensorRaw, loadRawWith, kind]
    cases baseId with
    | none =>
      intro a b left
      simp at left
    | some id =>
      intro a b left right
      simp only [Option.map_some, loadBaseRaw, bind_eq_ok] at left right
      obtain ⟨found, resolved, left⟩ := left
      obtain ⟨found', resolved', right⟩ := right
      obtain ⟨entry', algo', known⟩ := resolveBaseEntry_same (same id rfl) entry.name found found'
        resolved resolved'
      rw [entry', algo'] at right
      refine loadRawWith_none_agrees known distinct (fun x read => ?_) (fun x read => ?_) a b left right
      · exact before ⟨id, found, rfl, resolved, read⟩
      · exact after ⟨id, found', rfl, resolved', entry' ▸ read⟩
  | deltaXor =>
    simp only [Hashed, kind] at before after
    intro a b left right
    have hash := (hashRaw_of_delta kind left).trans (hashRaw_of_delta kind right).symm
    exact (distinct (before left) (after right) hash).symm
  | aliased =>
    intro a b left
    simp [loadTensorRaw, loadRawWith, kind] at left

/-- A tensor is what it was, or is not returned. -/
theorem loadTensor_agrees (own : entry.Sealed) (same : ∀ id, baseId = some id → SameBase (find id) (find' id))
    (distinct : Set.InjOn hashHex buffers) (before : Hashed files baseId pack find algo entry ⊆ buffers)
    (after : Hashed files' baseId pack' find' algo entry ⊆ buffers) :
    Agrees (loadTensor files baseId algo pack find entry) (loadTensor files' baseId algo pack' find' entry) :=
  (loadTensorRaw_agrees own same distinct before after).bind fun _ _ _ => .refl

end Tensor

/-- So does every full tensor of a list. -/
def Manifest.Sealed (m : Manifest) : Prop :=
  ∀ s ∈ m.snapshots, ∀ (r : Nat) (entry : RankEntry), s.ranks[r]? = some entry → ∀ e ∈ entry.tensors, e.Sealed

namespace Coordinator
variable [Zstd] [Xxh3] {rank : Nat} {files files' : Files} {m : Manifest} {snap : Snapshot} {snapId : Uuid}
  {names : List String} {buffers : Set Bytes} {ctx ctx' : Option BaseCtx}

/-- The bytes whose hash is checked when a rank is loaded whole. -/
def HashedWhole (rank : Nat) (files : Files) (m : Manifest) (snap : Snapshot) : Set Bytes :=
  {x | ∃ entry pack ctx, snap.ranks[rank]? = some entry ∧ packOf files entry = .ok pack ∧
    baseContext rank files m (entry.tensors.any (·.storage != .full)) snap.baseSnapshotId = .ok ctx ∧
    ∃ e ∈ entry.tensors, x ∈ Tensor.Hashed files snap.baseSnapshotId pack
      (resolver rank files m ctx) snap.compression e}

/-- The bytes whose hash may be checked when tensors of it are loaded by name. -/
def HashedRanged (rank : Nat) (files : Files) (m : Manifest) (snap : Snapshot) : Set Bytes :=
  {x | ∃ entry, snap.ranks[rank]? = some entry ∧ ∃ e ∈ entry.tensors,
    x ∈ Tensor.Hashed files snap.baseSnapshotId (rangedPack entry)
      (findBaseTensorEntryRanged rank m) snap.compression e}

omit [Zstd] [Xxh3] in
theorem findBaseTensorEntryWithPack_same (known : m.Sealed) {id : Uuid} :
    Tensor.SameBase (findBaseTensorEntryWithPack rank files m id)
      (findBaseTensorEntryWithPack rank files' m id) := by
  intro name found found' left right
  unfold findBaseTensorEntryWithPack at left right
  split at left
  · contradiction
  · rename_i base listed
    split at left
    · contradiction
    · rename_i entry present
      split at left
      · contradiction
      · rename_i e there
        simp only [listed, present, there, map_eq_ok] at left right
        obtain ⟨_, _, rfl⟩ := left
        obtain ⟨_, _, rfl⟩ := right
        refine ⟨rfl, rfl, ?_⟩
        exact known base (List.mem_of_find?_eq_some listed) rank entry present e
          (List.mem_of_find?_eq_some there)

omit [Zstd] [Xxh3] in
theorem findBaseTensorEntryRanged_same (known : m.Sealed) {id : Uuid} :
    Tensor.SameBase (findBaseTensorEntryRanged rank m id) (findBaseTensorEntryRanged rank m id) := by
  intro name found found' left right
  obtain rfl := Except.ok.inj (right.symm.trans left)
  refine ⟨rfl, rfl, ?_⟩
  unfold findBaseTensorEntryRanged at left
  split at left
  · contradiction
  · rename_i base listed
    split at left
    · contradiction
    · rename_i entry present
      split at left
      · contradiction
      · rename_i e there
        obtain rfl := Except.ok.inj left
        exact known base (List.mem_of_find?_eq_some listed) rank entry present e
          (List.mem_of_find?_eq_some there)

omit [Zstd] [Xxh3] in
/-- The entries of a base are the manifest's, whichever bytes are put in place of its pack. -/
theorem resolver_same (known : m.Sealed) {needs : Bool} {base : Option Uuid}
    (made : baseContext rank files m needs base = .ok ctx)
      (made' : baseContext rank files' m needs base = .ok ctx') {id : Uuid} :
    Tensor.SameBase (resolver rank files m ctx id) (resolver rank files' m ctx' id) := by
  unfold baseContext at made made'
  split at made
  · rename_i none_
    simp only [none_] at made'
    obtain rfl := Except.ok.inj made
    obtain rfl := Except.ok.inj made'
    exact findBaseTensorEntryWithPack_same known
  · rename_i snap chosen
    simp only [chosen] at made'
    split at made
    · rename_i absent
      simp only [absent] at made'
      obtain rfl := Except.ok.inj made
      obtain rfl := Except.ok.inj made'
      exact findBaseTensorEntryWithPack_same known
    · rename_i entry present
      simp only [present, map_eq_ok] at made made'
      obtain ⟨pack, _, rfl⟩ := made
      obtain ⟨pack', _, rfl⟩ := made'
      intro name found found' left right
      simp only [resolver] at left right
      split at left
      · contradiction
      · rename_i e there
        simp only [there, Except.ok.injEq] at left right
        subst left right
        refine ⟨rfl, rfl, ?_⟩
        have listed : snap ∈ m.snapshots := by
          split at chosen
          · obtain ⟨_, _, found⟩ := Option.bind_eq_some_iff.mp chosen
            exact List.mem_of_find?_eq_some found
          · contradiction
        exact known snap listed rank entry present e (mem_of_entriesByName there)

omit [Zstd] [Xxh3] in
/-- Tensors that are what they were, and aliases of them. -/
theorem loadEntries_agrees {loadOwn loadOwn' : TensorEntry → Except MoonclipError Bytes}
    {entries : List TensorEntry}
    (each : ∀ e ∈ entries, Agrees (loadOwn e) (loadOwn' e)) :
    Agrees (loadEntries loadOwn entries) (loadEntries loadOwn' entries) := by
  apply Agrees.bind
  · apply Agrees.mapM
    intro e there
    exact (each e (List.mem_of_mem_filter there)).bind fun _ _ _ => .refl
  · exact fun _ _ _ => .refl

theorem loadRank_agrees (known : m.Sealed) (listed : snap ∈ m.snapshots)
    (distinct : Set.InjOn hashHex buffers)
    (before : HashedWhole rank files m snap ⊆ buffers) (after : HashedWhole rank files' m snap ⊆ buffers) :
    Agrees (loadRank rank files m snap) (loadRank rank files' m snap) := by
  intro out out' left right
  cases present : snap.ranks[rank]? with
  | none => simp [loadRank, present] at left
  | some entry =>
    simp only [loadRank, present, bind_eq_ok] at left right
    obtain ⟨pack, opened, ctx, made, left⟩ := left
    obtain ⟨pack', opened', ctx', made', right⟩ := right
    refine loadEntries_agrees (fun e there => ?_) out out' left right
    apply Tensor.loadTensor_agrees (known snap listed rank entry present e there)
    · exact fun id _ => resolver_same known made made'
    · exact distinct
    · exact fun x hashed => before ⟨entry, pack, ctx, present, opened, made, e, there, hashed⟩
    · exact fun x hashed => after ⟨entry, pack', ctx', present, opened', made', e, there, hashed⟩

theorem load_agrees (known : m.Sealed) (found : m.findSnapshot snapId = some snap)
    (distinct : Set.InjOn hashHex buffers)
    (before : HashedWhole rank files m snap ⊆ buffers) (after : HashedWhole rank files' m snap ⊆ buffers) :
    Agrees (load rank files m snapId) (load rank files' m snapId) := by
  simp only [load, found]
  exact loadRank_agrees known (List.mem_of_find?_eq_some found) distinct before after

omit [Zstd] [Xxh3] in
theorem loadNamed_agrees {answer answer' : String → Except MoonclipError Bytes} {out : TensorMap}
    (each : ∀ name, Agrees (answer name) (answer' name)) :
      Agrees (loadNamed answer out names) (loadNamed answer' out names) := by
  induction names generalizing out with
  | nil => exact .refl
  | cons name rest ih => exact (each name).bind fun _ _ _ => ih

omit [Zstd] [Xxh3] in
theorem mem_of_entryFor {entries : List TensorEntry} {name : String} {e : TensorEntry}
    (chosen : entryFor snapId entries name = .ok e) : e ∈ entries := by
  unfold entryFor at chosen
  split at chosen
  · contradiction
  · rename_i there
    split at chosen
    · obtain rfl := Except.ok.inj chosen
      exact List.mem_of_find?_eq_some there
    · split at chosen
      · contradiction
      · split at chosen
        · contradiction
        · rename_i target
          obtain rfl := Except.ok.inj chosen
          exact List.mem_of_find?_eq_some target

theorem loadTensors_agrees (known : m.Sealed) (found : m.findSnapshot snapId = some snap)
    (distinct : Set.InjOn hashHex buffers) (before : HashedRanged rank files m snap ⊆ buffers)
    (after : HashedRanged rank files' m snap ⊆ buffers) :
    Agrees (loadTensors rank files m snapId names) (loadTensors rank files' m snapId names) := by
  simp only [loadTensors, found]
  cases present : snap.ranks[rank]? with
  | none =>
    intro part part' left
    simp at left
  | some entry =>
    apply loadNamed_agrees
    intro name
    apply Agrees.bind .refl
    intro e chosen _
    have there := mem_of_entryFor chosen
    apply Tensor.loadTensor_agrees (known snap (List.mem_of_find?_eq_some found) rank entry present e there)
    · exact fun id _ => findBaseTensorEntryRanged_same known
    · exact distinct
    · exact fun x hashed => before ⟨entry, present, e, there, hashed⟩
    · exact fun x hashed => after ⟨entry, present, e, there, hashed⟩

end Coordinator

namespace Threads
variable [SerdeJson] {s start : Threads}

theorem Sound.sealed {drawn : Drawn} {dead : Uuid → Prop} {first : Nat} (sound : s.Sound drawn dead first) :
    s.world.manifest.Sealed := by
  intro u listed r entry present
  have named := Std.ExtTreeMap.mem_toList_iff_getElem?_eq_some.mpr present
  obtain ⟨_, packed, _⟩ := sound.intact.stands u listed _ named
  exact packed.seals

/-- Whatever bytes are put in place of the files of a store, in any order of steps it
was reached: a load, of a snapshot or of some of its tensors, returns what it did before
or fails, if no two of the buffers it checks have one hash. -/
theorem corruption_detected [Zstd] [Xxh3] [LawfulSerdeJson] {cfg : Config} (fresh : start.Fresh)
    (run : Reaches (step cfg) Undisturbed start s) {rank : Nat} {snapId : Uuid} {snap : Snapshot}
    (found : s.world.manifest.findSnapshot snapId = some snap) {left : Files} {buffers : Set Bytes}
    (distinct : Set.InjOn hashHex buffers)
    (before : Coordinator.HashedWhole rank s.world.disk.files s.world.manifest snap ∪
      Coordinator.HashedRanged rank s.world.disk.files s.world.manifest snap ⊆ buffers)
    (after : Coordinator.HashedWhole rank left s.world.manifest snap ∪
      Coordinator.HashedRanged rank left s.world.manifest snap ⊆ buffers) :
    (∀ out out', Coordinator.load rank s.world.disk.files s.world.manifest snapId = .ok out →
      Coordinator.load rank left s.world.manifest snapId = .ok out' → out' = out) ∧
    ∀ names out out', Coordinator.loadTensors rank s.world.disk.files s.world.manifest snapId
      names = .ok out →
      Coordinator.loadTensors rank left s.world.manifest snapId names = .ok out' → out' = out := by
  obtain ⟨drawn, dead, sound⟩ := sound_reached fresh run
  obtain ⟨whole, ranged⟩ := Set.union_subset_iff.mp before
  obtain ⟨whole', ranged'⟩ := Set.union_subset_iff.mp after
  constructor
  · exact Coordinator.load_agrees sound.sealed found distinct whole whole'
  · exact fun names => Coordinator.loadTensors_agrees sound.sealed found distinct ranged ranged'

end Threads

namespace Damaged

/-- One save of two tensors. -/
def saved : Option Threads :=
  @run _ _ (@Threads.step Pair.serde Linked.zstd Linked.xxh3 (Pair.capped .none)) Racing.permits Racing.blank
    (.beginSave 7 [Pair.weight, Pair.bias] (Pair.context 100) :: List.replicate 5 .save)

/-- Its pack with another header, with nothing after the tensors, and with the second of them changed. -/
def pack : Bytes := List.replicate Pack.headerLen 7 ++ [1, 2, 4]

def left : Files := FileStore.empty.put (packPath 7 0) pack

def entries : List TensorEntry := [Pair.bodyEntry Pair.weight 32, Pair.bodyEntry Pair.bias 34]

theorem extracted {files : Files} {pack x : Bytes} {path : Path} {source : PackSource} {e : TensorEntry}
    (inPack : e.filename = none) (stored : files.find? path = some pack)
    (here : source = .whole pack ∨ source = .ranged path)
    (read : Tensor.extractCompressed files e source = .ok x) :
      x = (pack.drop e.offset).take e.compressedSize := by
  rcases here with rfl | rfl
  · exact (Tensor.extractCompressed_eq_ok inPack read).2
  · simp only [Tensor.extractCompressed, bind_eq_ok] at read
    obtain ⟨data, ranged, read⟩ := read
    obtain ⟨bytes, found, rfl⟩ := Storage.getRange_eq_ok ranged
    obtain rfl : pack = bytes := Option.some.inj (stored.symm.trans found)
    split at read
    · exact (pure_eq_ok.mp read).symm
    · simp at read

/-- The two slices are all that is checked. -/
theorem checked [Xxh3] [Zstd] {files : Files} {m : Manifest} {pack : Bytes}
    (stored : files.find? (packPath 7 0) = some pack)
    {buffers : Set Bytes} (slices : ∀ e ∈ entries, (pack.drop e.offset).take e.compressedSize ∈ buffers) :
    Coordinator.HashedWhole 0 files m Pair.full ∪ Coordinator.HashedRanged 0 files m Pair.full ⊆ buffers := by
  have only : Pair.full.ranks[0]? = some (Coordinator.rankEntryOf 0 (packPath 7 0) entries) := by
    decide +kernel
  have whole : ∀ e ∈ entries, e.storage = .full ∧ e.filename = none := by decide
  rintro x (⟨entry, source, ctx, present, opened, _, e, listed, hashed⟩ | ⟨entry, present, e, listed, hashed⟩)
  all_goals
    obtain rfl := Option.some.inj (only.symm.trans present)
    obtain ⟨full, inPack⟩ := whole e listed
    simp only [Tensor.Hashed, full, Set.mem_ofPred_eq] at hashed
  · obtain ⟨bytes, read, rfl⟩ := map_eq_ok.mp opened
    obtain rfl : pack = bytes := Option.some.inj (stored.symm.trans (Storage.get_eq_ok.mp read))
    exact extracted inPack stored (.inl rfl) hashed ▸ slices e listed
  · exact extracted inPack stored (.inr rfl) hashed ▸ slices e listed

end Damaged

/-- The header, the descriptor and one of two tensors are damaged: the other is loaded as
before, and the two of them are not loaded. -/
theorem Threads.corruption_detected_damaged :
    let _ := Linked.zstd
    let _ := Linked.xxh3
    let _ := Pair.serde
    ∃ s out, Damaged.saved = some s ∧ Coordinator.loadTensors 0 Damaged.left s.world.manifest 7
      ["w"] = .ok out ∧
      Coordinator.loadTensors 0 s.world.disk.files s.world.manifest 7 ["w"] = .ok out ∧
      (Coordinator.load 0 Damaged.left s.world.manifest 7).toOption = none := by
  intro zstd xxh3 serde
  have := Pair.lawful
  have ran : Damaged.saved.any (fun s => decide (s.world.manifest.snapshots = [Pair.full] ∧
      ((s.world.disk.files.find? (packPath 7 0)).map fun pack =>
        Damaged.entries.map fun e => (pack.drop e.offset).take e.compressedSize) = some [[1, 2], [3]] ∧
      (Coordinator.loadTensors 0 s.world.disk.files s.world.manifest 7 ["w"]).toOption.isSome = true ∧
      (Coordinator.loadTensors 0 Damaged.left s.world.manifest 7 ["w"]).toOption.isSome = true ∧
      (Coordinator.load 0 Damaged.left s.world.manifest 7).toOption.isNone = true)) = true := by
    decide +kernel
  obtain ⟨s, reached, ran⟩ := (Option.any_eq_true _ _).mp ran
  obtain ⟨list, stored, loads, loads', fails⟩ := of_decide_eq_true ran
  have run : Reaches (Threads.step (Pair.capped .none)) Threads.Undisturbed Racing.blank s :=
    reaches_of_run .refl (fun _ _ => Racing.undisturbed) reached
  have found : s.world.manifest.findSnapshot 7 = some Pair.full := by
    rw [Manifest.findSnapshot, list]
    rfl
  obtain ⟨pack, there, slices⟩ := Option.map_eq_some_iff.mp stored
  obtain ⟨out, loaded⟩ := Option.isSome_iff_exists.mp loads
  obtain ⟨out', loaded'⟩ := Option.isSome_iff_exists.mp loads'
  have loaded := toOption_eq_some.mp loaded
  have loaded' := toOption_eq_some.mp loaded'
  have before : ∀ e ∈ Damaged.entries, (pack.drop e.offset).take e.compressedSize ∈
    {data | data ∈ Pair.given} :=
    fun e listed => (by decide : ∀ x ∈ ([[1, 2], [3]] : List Bytes), x ∈ Pair.given) _
      (slices ▸ List.mem_map_of_mem (f := fun e => (pack.drop e.offset).take e.compressedSize) listed)
  have after : ∀ e ∈ Damaged.entries,
      (Damaged.pack.drop e.offset).take e.compressedSize ∈ {data | data ∈ Pair.given} := by
    decide
  have same := (Threads.corruption_detected Racing.fresh run found Pair.faithful
    (Damaged.checked there before) (Damaged.checked FileStore.find?_put_self after)).2 ["w"] out
      out' loaded loaded'
  exact ⟨s, out, reached, same ▸ loaded', loaded, Option.isNone_iff_eq_none.mp fails⟩

end Moonclip
