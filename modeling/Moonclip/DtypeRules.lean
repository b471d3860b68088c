import Moonclip.Runs

/-! The dtype each tensor is stored in: what the rules prescribe for its name, as
long as no tensor that shares its bytes is prescribed another. -/
namespace Moonclip
open Library.Outcome

/-- The dtype the rules prescribe for a tensor, whatever else is saved with it. -/
def DTypePolicy.prescribed (policy : DTypePolicy) (t : TensorData) : String :=
  if policy.forTensor t.name ≠ .none ∧ Cast.isCastableFloat t.dtype then
    (policy.forTensor t.name).toStr
  else t.dtype

/-- Every tensor has an entry, in the dtype prescribed for its own name. -/
structure Obeys (policy : DTypePolicy) (tensors : List TensorData) (entries : List TensorEntry) :
    Prop where
  names : (entries.map (·.name)).Perm (tensors.map (·.name))
  dtype : ∀ e ∈ entries, ∀ t ∈ tensors, e.name = t.name → e.dtype = policy.prescribed t

/-- Tensors that share bytes are prescribed one dtype. -/
def Agreed [Xxh3] (policy : DTypePolicy) (tensors : List TensorData) : Prop :=
  ∀ t ∈ tensors, ∀ u ∈ tensors, Tensor.Shares t u → policy.prescribed t = policy.prescribed u

theorem Cast.castTensor_target {data stored : Bytes} {src dtype : String} {target : DType}
    {scale : Option FiniteF32} (wanted : target ≠ .none) (castable : isCastableFloat src = true)
    (cast : castTensor data src target = .ok (stored, dtype, scale)) : dtype = target.toStr := by
  rcases castTensor_dtype cast with ⟨same, _, _⟩ | ⟨changed, _⟩
  · by_contra other
    have kept : ¬(src = target.toStr ∨ ¬isCastableFloat src = true) := by
      simpa [castable, same] using other
    unfold castTensor at cast
    rw [if_neg wanted, if_neg kept] at cast
    split at cast <;> split at cast <;> simp only [bind_eq_ok, pure_eq_ok, Prod.mk.injEq] at cast
    · obtain ⟨_, _, _, _, _, named, _⟩ := cast
      exact other named.symm
    · obtain ⟨_, _, _, _, _, named, _⟩ := cast
      exact other named.symm
    · obtain ⟨_, _, _, named, _⟩ := cast
      exact other named.symm
    · obtain ⟨_, _, _, _, _, named, _⟩ := cast
      exact other named.symm
  · exact changed

namespace Tensor

theorem workingCopy_dtype {t : TensorData} {policy : DTypePolicy} {w : Working}
    (copied : workingCopy t policy = .ok w) : w.dtype = policy.prescribed t := by
  unfold workingCopy at copied
  extract_lets target at copied
  unfold DTypePolicy.prescribed
  split at copied
  · rename_i applies
    simp only [bind_eq_ok] at copied
    obtain ⟨⟨data, dtype, scale⟩, cast, made⟩ := copied
    obtain rfl := Except.ok.inj made
    rw [if_pos applies]
    exact Cast.castTensor_target applies.1 applies.2 cast
  · rename_i spared
    simp only [bind_eq_ok, Except.ok.injEq] at copied
    obtain ⟨_, rfl, made⟩ := copied
    obtain rfl := Except.ok.inj made
    rw [if_neg spared]

theorem workingCopy_original {t : TensorData} {policy : DTypePolicy} {w : Working}
    (copied : workingCopy t policy = .ok w) (kept : w.dtype = t.dtype) : w.originalDtype = none := by
  unfold workingCopy at copied
  extract_lets target at copied
  split at copied <;> simp only [bind_eq_ok] at copied <;>
    obtain ⟨⟨data, dtype, scale⟩, _, made⟩ := copied <;> obtain rfl := Except.ok.inj made <;>
    exact if_neg (not_not.mpr kept)

variable [Xxh3] {files : Files} {algo : CompressionAlgo} {maxRatio : Float} {t : TensorData}
  {w : Working} {pt : ProcessedTensor}

/-- A tensor with what is written for it: in full or as a delta its bytes, else
nothing. -/
inductive Stores (t : TensorData) (w : Working) : ProcessedTensor → Prop where
  | bytes (storage : TensorStorage) (shuffled : Bool) (blob : Bytes)
      (kind : storage = .full ∨ storage = .deltaXor) : Stores t w (stored t w storage shuffled (some blob))
  | skipped : Stores t w (stored t w .skipped false none)

/-- However a tensor is stored, its entry records its working copy. -/
theorem Stores.describes (stores : Stores t w pt) : Describes t w pt.entry := by
  cases stores with
  | bytes storage shuffled blob kind =>
    refine ⟨rfl, rfl, rfl, rfl, rfl, rfl, rfl, rfl, ?_⟩
    rcases kind with rfl | rfl <;> simp [stored]
  | skipped => exact ⟨rfl, rfl, rfl, rfl, rfl, rfl, rfl, rfl, by simp [stored]⟩

variable [Zstd]

theorem makeFullEntry_stores (made : makeFullEntry t w algo = .ok pt) : Stores t w pt := by
  simp only [makeFullEntry, bind_eq_ok, pure_eq_ok] at made
  obtain ⟨blob, _, rfl⟩ := made
  exact .bytes .full false blob (.inl rfl)

theorem tryDelta_stores {cache : BaseCache} {e : TensorEntry}
    (tried : tryDelta files cache e t w algo maxRatio = .ok (some pt)) : Stores t w pt := by
  obtain ⟨_, _, blob, _, _, _, rfl⟩ := tryDelta_packed tried
  exact .bytes .deltaXor _ blob (.inr rfl)

/-- Whatever base a tensor is compared with, its working copy is what is stored. -/
theorem processTensor_stores {cache : Option BaseCache} {policy : DTypePolicy}
    (processed : processTensor files cache algo maxRatio policy t = .ok pt) :
    ∃ w, workingCopy t policy = .ok w ∧ Stores t w pt := by
  simp only [processTensor, bind_eq_ok] at processed
  obtain ⟨w, copied, rest⟩ := processed
  refine ⟨w, copied, ?_⟩
  split at rest
  · exact makeFullEntry_stores rest
  · split at rest
    · obtain rfl := Except.ok.inj rest
      exact .skipped
    · simp only [bind_eq_ok] at rest
      obtain ⟨tried, attempt, rest⟩ := rest
      split at rest
      · obtain rfl := Except.ok.inj rest
        exact tryDelta_stores attempt
      · exact makeFullEntry_stores rest

theorem processTensor_describes {cache : Option BaseCache} {policy : DTypePolicy}
    (processed : processTensor files cache algo maxRatio policy t = .ok pt) :
    ∃ w, workingCopy t policy = .ok w ∧ Describes t w pt.entry := by
  obtain ⟨w, copied, stores⟩ := processTensor_stores processed
  exact ⟨w, copied, stores.describes⟩

/-- Under whose name the bytes of a large tensor go. -/
def firstOwner (seen : List ((String × String) × String)) (tensors : List TensorData)
    (key : String × String) : Option String :=
  (seen.lookup key).or ((tensors.find? fun t =>
    decide (Delta.deltaMinSize ≤ t.data.length ∧ (hashHex t.data, t.dtype) = key)).map (·.name))

omit [Zstd] in
theorem firstOwner_cons {seen : List ((String × String) × String)} {head : TensorData}
    {rest : List TensorData} {key : String × String} : firstOwner seen (head :: rest) key =
      if Delta.deltaMinSize ≤ head.data.length ∧ (hashHex head.data, head.dtype) = key then
        (seen.lookup key).or (some head.name)
      else firstOwner seen rest key := by
  unfold firstOwner
  split
  · rename_i first
    rw [List.find?_cons_of_pos (by simpa using first), Option.map_some]
  · rename_i other
    rw [List.find?_cons_of_neg (by simpa using other)]

omit [Zstd] in
theorem dedupPlan_firstOwner {seen : List ((String × String) × String)} {tensors : List TensorData}
    {t : TensorData} {owner : Option String} (planned : (t, owner) ∈ tensors.zip (dedupPlan seen tensors))
    (large : Delta.deltaMinSize ≤ t.data.length) :
    firstOwner seen tensors (hashHex t.data, t.dtype) = some (owner.getD t.name) := by
  induction tensors generalizing seen with
  | nil => simp at planned
  | cons head rest ih =>
    unfold dedupPlan at planned
    rw [firstOwner_cons]
    split at planned
    · rename_i small
      rcases List.mem_cons.mp planned with same | later
      · obtain ⟨rfl, _⟩ := Prod.mk.inj same
        omega
      · rw [if_neg (by omega)]
        exact ih later
    · rename_i here
      have here : Delta.deltaMinSize ≤ head.data.length := by omega
      simp only at planned
      cases known : seen.lookup (hashHex head.data, head.dtype) with
      | some first =>
        simp only [known, List.zip_cons_cons, List.mem_cons] at planned
        rcases planned with same | later
        · obtain ⟨rfl, rfl⟩ := Prod.mk.inj same
          simp [known, large]
        · have found := ih later
          split
          · rename_i same
            rw [← same.2] at found ⊢
            simpa [firstOwner, known] using found
          · exact found
      | none =>
        simp only [known, List.zip_cons_cons, List.mem_cons] at planned
        rcases planned with same | later
        · obtain ⟨rfl, rfl⟩ := Prod.mk.inj same
          simp [known, large]
        · have found := ih later
          simp only [firstOwner, List.lookup_cons] at found
          split
          · rename_i same
            simpa [← same.2, known] using found
          · rename_i other
            have apart : ((hashHex t.data, t.dtype) == (hashHex head.data, head.dtype)) = false :=
              beq_eq_false_iff_ne.mpr fun same => other ⟨here, same.symm⟩
            rw [apart] at found
            exact found

end Tensor

section
variable [Xxh3] {policy : DTypePolicy} {tensors : List TensorData} {pts : List ProcessedTensor}

/-- A tensor processed under its own name. -/
def Prescribed (policy : DTypePolicy) (t : TensorData) (pt : ProcessedTensor) : Prop :=
  pt.entry.name = t.name ∧ pt.entry.dtype = policy.prescribed t

omit [Xxh3] in
theorem Obeys.of_same {entries entries' : List TensorEntry} (obeys : Obeys policy tensors entries)
    (same : entries'.map (fun e => (e.name, e.dtype)) = entries.map fun e => (e.name, e.dtype)) :
    Obeys policy tensors entries' where
  names := by
    have names := congrArg (List.map Prod.fst) same
    simp only [List.map_map] at names
    exact names ▸ obeys.names
  dtype e listed t given named := by
    obtain ⟨e', listed', alike⟩ := List.mem_map.mp (same ▸ List.mem_map_of_mem listed)
    obtain ⟨name, dtype⟩ := Prod.mk.inj alike
    rw [← dtype]
    exact obeys.dtype e' listed' t given (name.trans named)

/-- Tensors stored by the rules, and aliases that agree with their owners. -/
theorem obeys_of_agreed (agreed : Agreed policy tensors) (distinct : (tensors.map (·.name)).Nodup)
    (planned : Planned (Prescribed policy) tensors pts) : Obeys policy tensors (pts.map (·.entry)) where
  names := by
    rw [List.map_map]
    exact planned.names
  dtype e listed t given named := by
    obtain ⟨pt, present, rfl⟩ := List.mem_map.mp listed
    rcases planned.each pt present with ⟨t', given', name, dtype⟩ |
      ⟨t', given', u, owner, pu, _, prescribed, rfl, shares⟩
    · obtain rfl : t' = t := List.inj_on_of_nodup_map distinct given' given (name.symm.trans named)
      exact dtype
    · obtain rfl : t' = t := List.inj_on_of_nodup_map distinct given' given named
      rw [agreed t' given' u owner shares]
      exact prescribed.2

/-- A large tensor has an entry, in the dtype of the one its bytes go under. -/
theorem Planned.entry_of_large {R : TensorData → ProcessedTensor → Prop} {t : TensorData}
    (planned : Planned R tensors pts) (named : ∀ t pt, R t pt → pt.entry.name = t.name)
    (given : t ∈ tensors) (large : Delta.deltaMinSize ≤ t.data.length) :
    ∃ pt ∈ pts, pt.entry.name = t.name ∧ ∃ pu ∈ pts, pt.entry.dtype = pu.entry.dtype ∧
      Tensor.firstOwner [] tensors (hashHex t.data, t.dtype) = some pu.entry.name := by
  obtain ⟨⟨t', owner⟩, there, rfl⟩ : ∃ p ∈ tensors.zip (Tensor.dedupPlan [] tensors), p.1 = t := by
    rw [← List.mem_map, List.map_fst_zip (by simp)]
    exact given
  have first := Tensor.dedupPlan_firstOwner there large
  cases owner with
  | none =>
    obtain ⟨pt, present, how⟩ := planned.own t' there
    have name := named t' pt how
    exact ⟨pt, present, name, pt, present, rfl, first.trans (congrArg some name.symm)⟩
  | some owner =>
    obtain ⟨pu, present, name, aliased⟩ := planned.shared t' owner there
    exact ⟨_, aliased, rfl, pu, present, rfl, first.trans (congrArg some name.symm)⟩

/-- Where every entry obeys the rules, no two tensors that share bytes had rules to
tell them apart. -/
theorem agreed_of_obeys {R : TensorData → ProcessedTensor → Prop} (planned : Planned R tensors pts)
    (named : ∀ t pt, R t pt → pt.entry.name = t.name) (distinct : (tensors.map (·.name)).Nodup)
    (obeys : Obeys policy tensors (pts.map (·.entry))) : Agreed policy tensors := by
  intro t given u given' shares
  obtain ⟨pt, present, name, po, owned, dtype, first⟩ := planned.entry_of_large named given shares.large
  obtain ⟨pu, present', name', po', owned', dtype', first'⟩ :=
    planned.entry_of_large named given' shares.owner
  rw [shares.hash, shares.dtype, first, Option.some.injEq] at first'
  obtain rfl : po = po' :=
    List.inj_on_of_nodup_map (planned.names.nodup_iff.mpr distinct) owned owned' first'
  rw [← obeys.dtype _ (List.mem_map_of_mem present) t given name, dtype, ← dtype',
    obeys.dtype _ (List.mem_map_of_mem present') u given' name']

end

namespace Coordinator

/-- Placing blobs moves no name and no dtype. -/
theorem assignOffsets_same {offset : Nat} {pts : List ProcessedTensor} :
    ((assignOffsets offset pts).map (·.entry)).map (fun e => (e.name, e.dtype)) =
      (pts.map (·.entry)).map fun e => (e.name, e.dtype) := by
  induction pts generalizing offset with
  | nil => rfl
  | cons pt rest ih =>
    cases written : pt.writeData with
    | none => simpa [assignOffsets, written] using ih
    | some blob => simpa [assignOffsets, written] using ih

section
variable [Zstd] [Xxh3] {cfg : Config} {base : Option Snapshot} {tensors : List TensorData}
  {pts : List ProcessedTensor} {cache : Option BaseCache} {files : Files}

theorem processAll_prescribed (distinct : (tensors.map (·.name)).Nodup)
    (ran : processAll cfg files cache tensors = .ok pts) :
    Planned (Prescribed cfg.saveDtype) tensors pts := by
  refine processAll_planned distinct (fun t pt ran => ?_) (fun _ _ named => named.1) ran
  obtain ⟨w, copied, describes⟩ := Tensor.processTensor_describes ran
  exact ⟨describes.name, describes.dtype.trans (Tensor.workingCopy_dtype copied)⟩

variable [SerdeJson] {snapId : Uuid} {context : SnapshotContext} {w after : World} {entry : RankEntry}

theorem saveRankTensors_eq_ok (ran : saveRankTensors cfg snapId base tensors context w = .ok entry after) :
    ∃ pts, processAll cfg w.disk.files (buildBaseCache cfg.rank w.retainedBase base) tensors = .ok pts ∧
      entry.tensors = (assignOffsets Pack.headerLen pts).map (·.entry) := by
  unfold saveRankTensors at ran
  obtain ⟨_, _, read, ran⟩ := Library.Effect.bind_eq_ok.mp ran
  obtain ⟨rfl, rfl⟩ := Library.Effect.get_eq_ok.mp read
  obtain ⟨pts, _, processed, ran⟩ := Library.Effect.bind_eq_ok.mp ran
  obtain ⟨made, rfl⟩ := Library.Effect.returning_eq_ok.mp processed
  refine ⟨pts, made, ?_⟩
  split at ran
  · obtain ⟨_, _, _, ran⟩ := Library.Effect.bind_eq_ok.mp ran
    obtain ⟨_, _, _, ran⟩ := Library.Effect.bind_eq_ok.mp ran
    obtain ⟨_, _, _, ran⟩ := Library.Effect.bind_eq_ok.mp ran
    obtain ⟨rfl, _⟩ := Library.Effect.pure_eq_ok.mp ran
    rfl
  · obtain ⟨_, _, _, ran⟩ := Library.Effect.bind_eq_ok.mp ran
    obtain ⟨_, _, _, ran⟩ := Library.Effect.bind_eq_ok.mp ran
    obtain ⟨rfl, _⟩ := Library.Effect.pure_eq_ok.mp ran
    rfl

end
end Coordinator

section
variable [Zstd] [LawfulZstd] [Xxh3] [SerdeJson] {base : Option Kept} {cfg : Config}
  {tensors : List TensorData} {pts : List ProcessedTensor} {k : Kept} {a : Archive} {buffers : Set Bytes}

omit [LawfulZstd] in
theorem SavedPack.obeys (saved : SavedPack base cfg tensors pts k)
    (distinct : (tensors.map (·.name)).Nodup) (agreed : Agreed cfg.saveDtype tensors) :
    Obeys cfg.saveDtype tensors k.entry.tensors where
  names := saved.names
  dtype e listed t given named := by
    cases saved.entries listed with
    | own t' w pt placed given' copied stored place entry =>
      have described := stored.describes.place place
      rw [entry] at described
      obtain rfl : t' = t :=
        List.inj_on_of_nodup_map distinct given' given (described.name.symm.trans named)
      exact described.dtype.trans (Tensor.workingCopy_dtype copied)
    | shared t' u w pu placed given' owner copied stored place there same entry =>
      have described := stored.describes.place place
      obtain rfl : t' = t := by
        refine List.inj_on_of_nodup_map distinct given' given (Eq.trans ?_ named)
        rw [entry]
        rfl
      rw [agreed t' given' u owner same, ← Tensor.workingCopy_dtype copied, ← described.dtype, entry]
      rfl

/-- A tensor that is to be kept as it is loads as it was given. -/
theorem SavedPack.loads_kept (saved : SavedPack base cfg tensors pts k)
    (distinct : (tensors.map (·.name)).Nodup) (faithful : Set.InjOn hashHex buffers)
    (known : ∀ t ∈ tensors, t.data ∈ buffers ∧
      ∀ w, Tensor.workingCopy t cfg.saveDtype = .ok w → w.data ∈ buffers)
    (bases : ∀ b, base = some b → a b.id = some b ∧ b.Base buffers a)
    (readable : Readable buffers k.snapshot.compression k.pack ((k.baseIn a).map Kept.baseRaw)
      k.entry.tensors)
    (obeys : Obeys cfg.saveDtype tensors k.entry.tensors) :
    ∃ out, k.loads a = .ok out ∧ ∀ t ∈ tensors, cfg.saveDtype.prescribed t = t.dtype →
      out[t.name]? = some t.data := by
  obtain ⟨out, loaded, spec⟩ := Kept.loads_ok readable
  refine ⟨out, loaded, fun t given kept => ?_⟩
  obtain ⟨e, listed, named⟩ := List.mem_map.mp (saved.names.symm.subset (List.mem_map_of_mem given))
  obtain ⟨t', given', u, owner, w, pt, placed, copied, stored, place, holder, name, _, dtype, original, _, _,
    hash, dtypes⟩ := saved.holder listed
  obtain rfl : t' = t := List.inj_on_of_nodup_map distinct given' given (name.symm.trans named)
  have same : u.data = t'.data := faithful (known u owner).1 (known t' given).1 hash
  have untouched : w.originalDtype = none := by
    refine Tensor.workingCopy_original copied ?_
    rw [← dtype, dtypes, ← kept]
    exact obeys.dtype e listed t' given named
  have described := stored.describes.place place
  have read := stored.reads place faithful ((known u owner).2 w copied) fun b is => (bases b is).2
  rw [(Tensor.workingCopy_untouched copied untouched).1, same] at read
  refine (spec _ _).mpr ⟨e, listed, named, placed.entry, holder, t'.data, ?_, ?_⟩
  · rw [saved.baseIn fun b is => (bases b is).1, saved.compression]
    exact read
  · simp [Tensor.uncast, described.originalDtype, untouched]

/-- What a rank writes obeys the rules exactly if tensors that share bytes are
prescribed one dtype; then what is to be kept as it is loads as it was given. -/
theorem Coordinator.dtypes_prescribed_iff [LawfulSerdeJson] :
    (∀ (cfg : Config) (snapId : Uuid) (base : Option Snapshot) (tensors : List TensorData)
      (context : SnapshotContext) (w after : World) (entry : RankEntry),
      (tensors.map (·.name)).Nodup →
      saveRankTensors cfg snapId base tensors context w = .ok entry after →
      (Obeys cfg.saveDtype tensors entry.tensors ↔ Agreed cfg.saveDtype tensors)) ∧
    ∀ s : Session, s.Reached Single → Set.InjOn hashHex s.buffers →
      ∀ snap ∈ s.world.manifest.snapshots, ∃ save ∈ s.saved, save.id = snap.id ∧
        (Agreed save.policy save.tensors →
          ∃ out, load 0 s.world.disk.files s.world.manifest snap.id = .ok out ∧
            ∀ t ∈ save.tensors, save.policy.prescribed t = t.dtype → out[t.name]? = some t.data) := by
  constructor
  · intro cfg snapId base tensors context w after entry distinct ran
    obtain ⟨pts, processed, written⟩ := saveRankTensors_eq_ok ran
    have planned := processAll_prescribed distinct processed
    rw [written]
    constructor
    · intro obeys
      exact agreed_of_obeys planned (fun _ _ named => named.1) distinct
        (obeys.of_same assignOffsets_same.symm)
    · intro agreed
      exact (obeys_of_agreed agreed distinct planned).of_same assignOffsets_same
  · intro s reached faithful snap present
    obtain ⟨a, keeps⟩ := Session.reached_keeps reached (fun _ single => single) faithful subset_rfl
    obtain ⟨now, start, held⟩ := keeps.held
    have sound := fun id k kept => And.imp_right Kept.Sound.toShaped (held.sound id k kept)
    obtain ⟨k, kept, _, loaded⟩ := held.listed.load_eq sound present
    obtain ⟨save, saved, id, given⟩ := keeps.given _ k kept
    obtain ⟨base, cfg, pts, _, policy, pack, bases⟩ := given.made
    refine ⟨save, saved, id, fun agreed => ?_⟩
    rw [loaded, ← policy]
    refine pack.loads_kept given.distinct faithful (fun t there => ⟨?_, fun w copied => ?_⟩) bases
      (held.sound _ k kept).2.readable (pack.obeys given.distinct (policy ▸ agreed))
    · exact ⟨save, saved, t, there, .inl rfl⟩
    · exact ⟨save, saved, t, there, .inr ⟨w, policy ▸ copied, rfl⟩⟩

end

namespace Twins

/-- The model in half the bytes, all else as it is. -/
def rules : DTypePolicy := ⟨[("model/*", .bFloat16)]⟩

def bytes : Bytes := List.replicate 4096 1
def model : TensorData := ⟨"model/w", [1024], "float32", bytes⟩
def ema : TensorData := ⟨"ema/w", [1024], "float32", bytes⟩
def config : Config := { plainConfig .none with saveDtype := rules }
def world : World := { blankWorld with disk := { blankWorld.disk with accepts := fun _ _ => true } }

def entries [Zstd] [Xxh3] : List TensorEntry :=
  (Coordinator.assignOffsets Pack.headerLen
    ((Coordinator.processAll config .empty none [model, ema]).toOption.getD [])).map (·.entry)

def descriptor [Zstd] [Xxh3] : PackDescriptor :=
  ⟨9, 0, 0, none, ∅, .none, 1, Coordinator.rankEntryOf 0 (packPath 9 0) entries⟩

abbrev serde [Zstd] [Xxh3] : SerdeJson := JsonText.serde (fun _ => []) [] [] [descriptor] []

theorem encoded [Zstd] [Xxh3] : ∃ text, serde.descriptor.toVec descriptor = .ok text := by
  apply JsonText.serde_descriptor
  exact List.mem_singleton_self _

theorem copied : ∃ w, Tensor.workingCopy model rules = .ok w ∧ w.dtype = "bfloat16" := by
  have dtype : (Tensor.workingCopy model rules).toOption.map (·.dtype) = some "bfloat16" := by
    decide +kernel
  cases made : Tensor.workingCopy model rules with
  | ok w => exact ⟨w, rfl, by simpa [made, Except.toOption] using dtype⟩
  | error e => simp [made, Except.toOption] at dtype

theorem planned [Xxh3] : Tensor.dedupPlan [] [model, ema] = [none, some "model/w"] := by
  have size : bytes.length = 4096 := List.length_replicate
  simp [Tensor.dedupPlan, model, ema, size, Delta.deltaMinSize]

theorem processed [Zstd] [Xxh3] : ∃ pt, Coordinator.processAll config .empty none [model, ema] =
    .ok [pt, ⟨Tensor.makeAliasEntry ema pt.entry, none⟩] ∧ pt.entry.dtype = "bfloat16" := by
  obtain ⟨w, made, dtype⟩ := copied
  refine ⟨Tensor.stored model w .full false (some w.data), ?_, dtype⟩
  have full : Tensor.processTensor .empty none config.compression config.deltaMaxRatio config.saveDtype
      model = .ok (Tensor.stored model w .full false (some w.data)) := by
    simp [Tensor.processTensor, config, made, bind, Except.bind, Tensor.makeFullEntry, plainConfig,
      Compression.compress, pure, Except.pure]
  have owner : (entriesByName [(Tensor.stored model w .full false (some w.data)).entry])["model/w"]? =
      some (Tensor.stored model w .full false (some w.data)).entry :=
    @getElem?_entriesByName [_] _ (List.nodup_singleton _) (List.mem_singleton_self _)
  simp [Coordinator.processAll, planned, full, bind, Except.bind, pure, Except.pure, owner]

end Twins

/-- Rules that spare a tensor, and the entry it gets for sharing bytes with one
they do not. -/
theorem Coordinator.dtype_lost : Twins.rules.prescribed Twins.ema = "float32" ∧
    ∀ (zstd : Zstd) (xxh3 : Xxh3), let _ := @Twins.serde zstd xxh3
      ∃ entry after, saveRankTensors Twins.config 9 none [Twins.model, Twins.ema] ⟨0, 0, ∅⟩ Twins.world =
          .ok entry after ∧
        ∃ e ∈ entry.tensors, e.name = "ema/w" ∧ e.dtype = "bfloat16" := by
  refine ⟨by decide +kernel, fun zstd xxh3 => ?_⟩
  intro serde
  obtain ⟨pt, made, dtype⟩ := Twins.processed
  have named : Twins.entries = (assignOffsets Pack.headerLen
      [pt, ⟨Tensor.makeAliasEntry Twins.ema pt.entry, none⟩]).map (·.entry) := by
    simp [Twins.entries, made, Except.toOption]
  obtain ⟨text, encoded⟩ := Twins.encoded
  obtain ⟨parts, packed⟩ : ∃ parts, packParts Twins.descriptor (blobsOf (assignOffsets Pack.headerLen
      [pt, ⟨Tensor.makeAliasEntry Twins.ema pt.entry, none⟩])) = .ok parts := by
    simp only [packParts, encoded]
    exact ⟨_, rfl⟩
  rw [Twins.descriptor, named] at packed
  have ran : ∃ after, saveRankTensors Twins.config 9 none [Twins.model, Twins.ema] ⟨0, 0, ∅⟩ Twins.world =
      .ok (rankEntryOf 0 (packPath 9 0) Twins.entries) after := by
    rw [named]
    exact ⟨_, Library.Effect.bind_eq_ok.mpr ⟨_, _, Library.Effect.get_eq_ok.mpr ⟨rfl, rfl⟩,
      Library.Effect.bind_eq_ok.mpr ⟨_, _, Library.Effect.returning_eq_ok.mpr ⟨made, rfl⟩,
      Library.Effect.bind_eq_ok.mpr ⟨_, _, Library.Effect.returning_eq_ok.mpr ⟨packed, rfl⟩,
      Library.Effect.bind_eq_ok.mpr ⟨(), _, rfl, rfl⟩⟩⟩⟩⟩
  obtain ⟨after, ran⟩ := ran
  refine ⟨_, after, ran, Tensor.makeAliasEntry Twins.ema pt.entry, ?_, rfl, dtype⟩
  rw [rankEntryOf, named]
  cases written : pt.writeData with
  | none => simp [assignOffsets, written]
  | some blob => simp [assignOffsets, written]

namespace Spared

/-- The rules have the first cast, and leave the second as it is. -/
def model : TensorData := ⟨"model/w", [1], "float16", [0, 60]⟩
def ema : TensorData := ⟨"ema/w", [1], "float16", [1, 2]⟩

def config : Config := { plainConfig .none with saveDtype := Twins.rules }

def placed (offset : Nat) (pt : ProcessedTensor) : TensorEntry := { pt.entry with offset := offset }

def rankEntry : RankEntry :=
  let _ := Linked.xxh3
  Coordinator.rankEntryOf 0 (packPath 7 0)
    [placed 32 (Tensor.stored model ⟨[128, 63], "bfloat16", some "float16", none⟩ .full false
      (some [128, 63])),
      placed 34 (Tensor.stored ema ⟨[1, 2], "float16", none, none⟩ .full false (some [1, 2]))]

def snapshot : Snapshot := Coordinator.snapshotOf config 7 none Lone.context rankEntry

abbrev serde : SerdeJson :=
  JsonText.serde (fun _ => []) [ManifestIo.indexOf { Lone.manifest with snapshots := [snapshot] }]
    [⟨7, snapshot.ranks⟩] [⟨7, 100, 5, none, ∅, .none, 1, rankEntry⟩] []

def story : Act (List Uuid) :=
  let _ := Linked.zstd
  let _ := Linked.xxh3
  let _ := serde
  do
    Recovery.openStore config inOrder
    Coordinator.saveSync config 7 [model, ema] Lone.context
    return (← get).manifest.snapshots.map (·.id)

def saved : World := Library.Effect.finalState story blankWorld

theorem saved_reached :
    let _ := Linked.zstd
    let _ := Linked.xxh3
    let _ := serde
    saved.manifest.snapshots.map (·.id) = [7] ∧
      Session.Reached Single ⟨config, saved, [⟨7, Twins.rules, [model, ema]⟩]⟩ := by
  intro zstd xxh3 serde
  have told : Library.Effect.value? story blankWorld = some [7] := by decide +kernel
  have told := Library.Effect.ok_of_value? told
  change story blankWorld = .ok [7] saved at told
  simp only [story, Library.Effect.bind_eq_ok, Library.Effect.get_eq_ok, Library.Effect.pure_eq_ok] at told
  obtain ⟨_, opened, opening, _, _, saving, _, _, ⟨rfl, rfl⟩, listed, rfl⟩ := told
  have first : Session.Reached Single ⟨config, opened, []⟩ :=
    .fresh _ inOrder blankWorld _ ⟨rfl, rfl⟩ rfl rfl (fun p body => of_decide_eq_true) opening
  exact ⟨listed, .save _ 7 [model, ema] Lone.context _ first (by simp) (by decide) saving⟩

def given : List Bytes := [[0, 60], [128, 63], [1, 2]]

theorem buffers {w : World} :
    (⟨config, w, [⟨7, Twins.rules, [model, ema]⟩]⟩ : Session).buffers ⊆ {data | data ∈ given} := by
  have known : ∀ t ∈ [model, ema], t.data ∈ given ∧
      (Tensor.workingCopy t Twins.rules).toOption.all (fun w => decide (w.data ∈ given)) = true := by
    decide +kernel
  rintro data ⟨save, there, t, listed, is⟩
  obtain rfl := List.mem_singleton.mp there
  rcases is with rfl | ⟨w, copied, rfl⟩
  · exact (known t listed).1
  · simpa [copied, Except.toOption] using (known t listed).2

theorem faithful : Set.InjOn (@hashHex Linked.xxh3) {data | data ∈ given} := by
  have apart : (given.map (@hashHex Linked.xxh3)).Nodup := by decide +kernel
  exact fun x there y also same => List.inj_on_of_nodup_map apart there also same

/-- They are too small to share anything. -/
theorem agreed [Xxh3] : Agreed Twins.rules [model, ema] := by
  have small : ∀ t ∈ [model, ema], t.data.length < Delta.deltaMinSize := by decide
  intro t given u _ shares
  exact absurd shares.large (Nat.not_le.mpr (small t given))

end Spared

/-- Of two tensors one is cast; the other loads as it was given. -/
theorem Coordinator.dtypes_prescribed_spared :
    let _ := Linked.zstd
    let _ := Linked.xxh3
    let _ := Spared.serde
    Twins.rules.prescribed Spared.model = "bfloat16" ∧ Twins.rules.prescribed Spared.ema = "float16" ∧
      (∃ entry after, saveRankTensors Spared.config 7 none [Spared.model, Spared.ema]
        Lone.context blankWorld =
          .ok entry after ∧
        Obeys Twins.rules [Spared.model, Spared.ema] entry.tensors) ∧
      ∃ out, load 0 Spared.saved.disk.files Spared.saved.manifest 7 = .ok out ∧
        out["ema/w"]? = some [1, 2] := by
  intro zstd xxh3 serde
  have := Linked.zstd_lawful
  have : LawfulSerdeJson := JsonText.serde_lawful _ (by simp) (by simp) (by simp) (by simp)
  have prescribed : Twins.rules.prescribed Spared.model = "bfloat16" ∧
    Twins.rules.prescribed Spared.ema = "float16" := by
    decide +kernel
  have written : Library.Effect.returns
      (saveRankTensors Spared.config 7 none [Spared.model, Spared.ema] Lone.context) blankWorld = true := by
    decide +kernel
  refine ⟨prescribed.1, prescribed.2, ?_, ?_⟩
  · obtain ⟨entry, ran⟩ := Library.Effect.exists_ok written
    exact ⟨entry, _, ran,
      (dtypes_prescribed_iff.1 Spared.config 7 none _ _ _ _ entry (by decide) ran).mpr Spared.agreed⟩
  · obtain ⟨listed, reached⟩ := Spared.saved_reached
    obtain ⟨snap, present, id⟩ := List.mem_map.mp (listed ▸ List.mem_singleton_self 7)
    obtain ⟨save, given, _, loads⟩ :=
      dtypes_prescribed_iff.2 _ reached (Spared.faithful.mono Spared.buffers) snap present
    obtain rfl := List.mem_singleton.mp given
    obtain ⟨out, loaded, kept⟩ := loads Spared.agreed
    exact ⟨out, id ▸ loaded, kept Spared.ema (by simp) prescribed.2⟩

end Moonclip
