import Moonclip.Entries

/-! Loading a few tensors by name: the spans of the entries asked for, read one at a
time, against a base that is not read whole either. Where it returns, a full load
returns the same bytes for them. -/
namespace Moonclip
open Library.Outcome Library.Tables

namespace Coordinator

/-- The rank's pack, to be read a span at a time. -/
def rangedPack (entry : RankEntry) : PackSource :=
  match entry.packFile with
  | some p => .ranged p
  | none => .perFile

/-- `find_base_tensor_entry_with_pack` with `whole_pack` false. -/
def findBaseTensorEntryRanged (rank : Nat) (m : Manifest) (baseId : Uuid) (tensorName : String) :
    Except MoonclipError BaseEntry :=
  match m.findSnapshot baseId with
  | none => .error (.notFound ("Base snapshot " ++ uuidText baseId))
  | some baseSnap =>
    match baseSnap.ranks[rank]? with
    | none => .error (.notFound ("Rank " ++ toString rank ++ " not in base snapshot " ++
        uuidText baseId))
    | some rankEntry =>
      match rankEntry.tensors.find? (·.name == tensorName) with
      | none => .error (tensorMissing tensorName baseId)
      | some entry => .ok ⟨entry, baseSnap.compression, rangedPack rankEntry⟩

/-- The entry whose bytes stand for `name`: an alias holds none of its own. -/
def entryFor (snapId : Uuid) (entries : List TensorEntry) (name : String) :
    Except MoonclipError TensorEntry :=
  match entries.find? (·.name == name) with
  | none => .error (.notFound ("Tensor '" ++ name ++ "' not in snapshot " ++ uuidText snapId))
  | some entry =>
    if entry.storage ≠ .aliased then .ok entry
    else match entry.aliasOf with
      | none => .error (.notFound ("Alias '" ++ name ++ "' has no target"))
      | some target =>
        match entries.find? (·.name == target) with
        | none => .error (.notFound ("Alias '" ++ name ++ "' points at '" ++ target ++
            "', which is not in this snapshot"))
        | some entry => .ok entry

/-- One name after another, and the first that cannot be answered ends it. -/
def loadNamed (answer : String → Except MoonclipError Bytes) (out : TensorMap) :
    List String → Except MoonclipError TensorMap
  | [] => .ok out
  | name :: rest => do
    let data ← answer name
    loadNamed answer (out.insert name data) rest

section
variable [Zstd] [Xxh3]

/-- Load the named tensors and nothing else, from the files that are there. -/
def loadTensors (rank : Nat) (files : Files) (m : Manifest) (snapId : Uuid) (names : List String) :
    Except MoonclipError TensorMap :=
  match m.findSnapshot snapId with
  | none => .error (.notFound ("Snapshot " ++ uuidText snapId))
  | some snap =>
    match snap.ranks[rank]? with
    | none => .error (rankMissing rank snapId)
    | some rankEntry =>
      loadNamed (fun name => do
        let entry ← entryFor snapId rankEntry.tensors name
        Tensor.loadTensor files snap.baseSnapshotId snap.compression (rangedPack rankEntry)
          (findBaseTensorEntryRanged rank m) entry) ∅ names

end
end Coordinator

/-- What one computation returns, the other returns. -/
def Carries {ε α : Type} (one two : Except ε α) : Prop := ∀ a, one = .ok a → two = .ok a

/-- The entries of one rank as every writer leaves them: a name each, no file of their
own, and behind every alias a tensor with bytes. -/
structure Sheet (entries : List TensorEntry) : Prop where
  distinct : (entries.map (·.name)).Nodup
  inPack : ∀ e ∈ entries, e.filename = none
  holders : ∀ e ∈ entries, ∃ t, Holder entries e t

/-- Every rank's entries are in order. -/
def Ledger (ranks : RankMap) : Prop := ∀ (r : Nat) (entry : RankEntry), ranks[r]? = some entry →
    Sheet entry.tensors

theorem Sheet.find? {entries : List TensorEntry} {e : TensorEntry} (sheet : Sheet entries)
    (listed : e ∈ entries) :
    entries.find? (·.name == e.name) = some e := by
  cases found : entries.find? (·.name == e.name) with
  | none => simpa using List.find?_eq_none.mp found e listed
  | some t =>
    have same : t.name = e.name := by simpa using List.find?_some found
    rw [eq_of_name sheet.distinct (List.mem_of_find?_eq_some found) listed same]

namespace Tensor
variable {files : Files} {entry : TensorEntry} {algo : CompressionAlgo} {whole ranged : PackSource}

/-- The same pack, read whole before and a span at a time now. -/
inductive Spans (files : Files) : PackSource → PackSource → Prop where
  | pack (p : Path) (bytes : Bytes) (found : files.find? p = some bytes) :
      Spans files (.whole bytes) (.ranged p)
  | perFile : Spans files .perFile .perFile

/-- A span cut from the whole pack is what a ranged read of it returns. -/
theorem extractCompressed_ranged (spans : Spans files whole ranged) (inPack : entry.filename = none) :
    Carries (extractCompressed files entry whole) (extractCompressed files entry ranged) := by
  intro data read
  have alone : extractCompressed.fromFile files entry ≠ .ok data := by
    simp [extractCompressed.fromFile, inPack]
  cases spans with
  | pack p bytes found =>
    simp only [extractCompressed] at read
    split at read
    · rename_i within
      obtain rfl := Except.ok.inj read
      have size : ((bytes.drop entry.offset).take entry.compressedSize).length = entry.compressedSize := by
        simp
        omega
      simp [extractCompressed, Storage.getRange_within found within, size, bind, Except.bind,
        pure, Except.pure]
    · exact absurd read alone
  | perFile =>
    simp only [extractCompressed] at read
    exact absurd read alone

variable [Zstd] [Xxh3]

/-- A tensor read against the whole packs reads the same from their spans. -/
theorem loadRawWith_ranged {base base' : Option (String → Except MoonclipError Bytes)}
    (spans : Spans files whole ranged) (inPack : entry.filename = none)
    (bases : ∀ f, base = some f → ∃ g, base' = some g ∧ ∀ name, Carries (f name) (g name)) :
    Carries (loadRawWith base files entry algo whole) (loadRawWith base' files entry algo ranged) := by
  intro data read
  have blob := extractCompressed_ranged spans inPack
  unfold loadRawWith at read ⊢
  cases kind : entry.storage with
  | aliased => simp [kind] at read
  | full =>
    simp only [kind, loadFull, bind_eq_ok] at read ⊢
    obtain ⟨compressed, cut, rest⟩ := read
    exact ⟨compressed, blob _ cut, rest⟩
  | skipped =>
    simp only [kind] at read ⊢
    cases base with
    | none => simp at read
    | some f =>
      obtain ⟨g, rfl, carries⟩ := bases f rfl
      exact carries _ _ read
  | deltaXor =>
    simp only [kind, loadXor, bind_eq_ok] at read ⊢
    obtain ⟨delta, ⟨compressed, cut, unpacked⟩, rest⟩ := read
    refine ⟨delta, ⟨compressed, blob _ cut, unpacked⟩, ?_⟩
    cases base with
    | none => simp at rest
    | some f =>
      obtain ⟨g, rfl, carries⟩ := bases f rfl
      simp only [bind_eq_ok] at rest ⊢
      obtain ⟨baseData, looked, rest⟩ := rest
      exact ⟨baseData, carries _ _ looked, rest⟩

/-- An answer of the base's, with its pack left on storage. -/
structure Alike (files : Files) (one two : BaseEntry) : Prop where
  entry : two.entry = one.entry
  compression : two.compression = one.compression
  spans : Spans files one.pack two.pack
  inPack : one.entry.filename = none

omit [Zstd] [Xxh3] in
/-- Aliases are followed to the same entry. -/
theorem resolveBaseEntry_ranged {baseId : Uuid} {name : String} {one : BaseEntry}
    {find find' : String → Except MoonclipError BaseEntry}
    (answers : ∀ n b, find n = .ok b → ∃ b', find' n = .ok b' ∧ Alike files b b')
    (resolved : resolveBaseEntry baseId name find = .ok one) :
    ∃ two, resolveBaseEntry baseId name find' = .ok two ∧ Alike files one two := by
  suffices ∀ hops current, resolveBaseEntry.go baseId name find hops current = .ok one →
      ∃ two, resolveBaseEntry.go baseId name find' hops current = .ok two ∧ Alike files one two from
    this 8 name resolved
  intro hops
  induction hops with
  | zero =>
    intro current resolved
    simp [resolveBaseEntry.go] at resolved
  | succ hops ih =>
    intro current resolved
    simp only [resolveBaseEntry.go, bind_eq_ok] at resolved ⊢
    obtain ⟨found, looked, rest⟩ := resolved
    obtain ⟨found', looked', alike⟩ := answers current found looked
    rw [← alike.entry] at rest
    split at rest
    · rename_i own
      obtain rfl : found = one := by simpa using rest
      exact ⟨found', ⟨found', looked', by simp [own]⟩, alike⟩
    · rename_i aliased
      cases named : found'.entry.aliasOf with
      | none => simp [named] at rest
      | some target =>
        simp only [named] at rest
        obtain ⟨two, later, alike⟩ := ih target rest
        exact ⟨two, ⟨found', looked', by simp [aliased, named, later]⟩, alike⟩

theorem loadTensorRaw_ranged {baseId : Option Uuid}
    {find find' : Uuid → String → Except MoonclipError BaseEntry}
    (spans : Spans files whole ranged) (inPack : entry.filename = none)
    (answers : ∀ id, baseId = some id → ∀ n b, find id n = .ok b → ∃ b', find' id n = .ok b' ∧
      Alike files b b') :
    Carries (loadTensorRaw files baseId algo whole find entry)
      (loadTensorRaw files baseId algo ranged find' entry) := by
  apply loadRawWith_ranged spans inPack
  intro f based
  obtain ⟨id, same, rfl⟩ := Option.map_eq_some_iff.mp based
  refine ⟨loadBaseRaw files id (find' id), by simp [same], fun name out looked => ?_⟩
  simp only [loadBaseRaw, bind_eq_ok] at looked ⊢
  obtain ⟨one, resolved, looked⟩ := looked
  obtain ⟨two, resolved', alike⟩ := resolveBaseEntry_ranged (answers id same) resolved
  refine ⟨two, resolved', ?_⟩
  rw [alike.entry, alike.compression]
  apply loadRawWith_ranged alike.spans alike.inPack _ out looked
  intro f based
  cases based

theorem loadTensor_ranged {baseId : Option Uuid} {find find' : Uuid → String → Except MoonclipError BaseEntry}
    (spans : Spans files whole ranged) (inPack : entry.filename = none)
    (answers : ∀ id, baseId = some id → ∀ n b, find id n = .ok b → ∃ b', find' id n = .ok b' ∧
      Alike files b b') :
    Carries (loadTensor files baseId algo whole find entry)
      (loadTensor files baseId algo ranged find' entry) := by
  intro data read
  simp only [loadTensor, bind_eq_ok] at read ⊢
  obtain ⟨raw, read, undone⟩ := read
  exact ⟨raw, loadTensorRaw_ranged spans inPack answers raw read, undone⟩

end Tensor

namespace Coordinator
variable {files : Files} {m : Manifest} {rank : Nat} {entries : List TensorEntry} {name : String}
  {snapId : Uuid} {out : TensorMap} {names : List String}

theorem packOf_spans {entry : RankEntry} {pack : PackSource} (made : packOf files entry = .ok pack) :
    Tensor.Spans files pack (rangedPack entry) := by
  unfold packOf at made
  unfold rangedPack
  cases packed : entry.packFile with
  | none =>
    obtain rfl : PackSource.perFile = pack := by simpa [packed] using made
    exact .perFile
  | some p =>
    simp only [packed, map_eq_ok] at made
    obtain ⟨bytes, found, rfl⟩ := made
    exact .pack p bytes (Storage.get_eq_ok.mp found)

/-- Whichever way a full load looks the base up, the ranged lookup answers alike. -/
theorem resolver_ranged {needsBase : Bool} {baseId : Uuid} {ctx : Option BaseCtx} {one : BaseEntry}
    (sheets : ∀ s ∈ m.snapshots, Ledger s.ranks)
    (made : baseContext rank files m needsBase (some baseId) = .ok ctx)
    (looked : resolver rank files m ctx baseId name = .ok one) :
    ∃ two, findBaseTensorEntryRanged rank m baseId name = .ok two ∧ Tensor.Alike files one two := by
  cases ctx with
  | none =>
    simp only [resolver, findBaseTensorEntryWithPack] at looked
    unfold findBaseTensorEntryRanged
    cases found : m.findSnapshot baseId with
    | none => simp [found] at looked
    | some b =>
      simp only [found] at looked ⊢
      cases present : b.ranks[rank]? with
      | none => simp [present] at looked
      | some entry =>
        simp only [present] at looked ⊢
        cases named : entry.tensors.find? (·.name == name) with
        | none => simp [named] at looked
        | some e =>
          simp only [named, map_eq_ok] at looked ⊢
          obtain ⟨pack, packed, rfl⟩ := looked
          have sheet := sheets b (List.mem_of_find?_eq_some found) rank entry present
          exact ⟨_, rfl, rfl, rfl, packOf_spans packed, sheet.inPack e (List.mem_of_find?_eq_some named)⟩
  | some base =>
    cases needsBase with
    | false => simp [baseContext] at made
    | true =>
      simp only [baseContext, if_true, Option.bind_some] at made
      unfold findBaseTensorEntryRanged
      cases found : m.findSnapshot baseId with
      | none => simp [found] at made
      | some b =>
        simp only [found] at made ⊢
        cases present : b.ranks[rank]? with
        | none => simp [present] at made
        | some entry =>
          simp only [present, map_eq_ok, Option.some.injEq] at made ⊢
          obtain ⟨pack, packed, rfl⟩ := made
          simp only [resolver] at looked
          cases named : (entriesByName entry.tensors)[name]? with
          | none => simp [named] at looked
          | some e =>
            obtain rfl : (⟨e, b.compression, pack⟩ : BaseEntry) = one := by simpa [named] using looked
            have sheet := sheets b (List.mem_of_find?_eq_some found) rank entry present
            have listed := mem_of_entriesByName named
            obtain rfl := name_of_entriesByName named
            simp only [sheet.find? listed]
            exact ⟨_, rfl, rfl, rfl, packOf_spans packed, sheet.inPack e listed⟩

/-- The entry read for a name is the one that holds the bytes of the entry of that name. -/
theorem entryFor_holder {e t : TensorEntry} (sheet : Sheet entries) (listed : e ∈ entries)
    (holder : Holder entries e t) : entryFor snapId entries e.name = .ok t := by
  unfold entryFor
  simp only [sheet.find? listed]
  rcases holder.named with rfl | ⟨aliased, target⟩
  · rw [if_pos holder.own]
  · rw [if_neg (by simp [aliased])]
    simp only [target, sheet.find? holder.listed]

theorem entryFor_absent (absent : name ∉ entries.map (·.name)) :
    entryFor snapId entries name =
      .error (.notFound ("Tensor '" ++ name ++ "' not in snapshot " ++ uuidText snapId)) := by
  have nobody : entries.find? (·.name == name) = none := by
    rw [List.find?_eq_none]
    intro e listed same
    exact absent (List.mem_map.mpr ⟨e, listed, by simpa using same⟩)
  simp only [entryFor, nobody]

theorem loadNamed_ok {answer : String → Except MoonclipError Bytes} {bytes : String → Bytes}
    (out : TensorMap) (answers : ∀ n ∈ names, answer n = .ok (bytes n)) :
    ∃ part, loadNamed answer out names = .ok part ∧
      ∀ n : String, part[n]? = if n ∈ names then some (bytes n) else out[n]? := by
  induction names generalizing out with
  | nil => exact ⟨out, rfl, fun n => by simp⟩
  | cons name rest ih =>
    obtain ⟨part, loaded, spec⟩ := @ih (out.insert name (bytes name)) fun n there =>
      answers n (by simp [there])
    refine ⟨part, by simp [loadNamed, answers name (by simp), loaded, bind, Except.bind], fun n => ?_⟩
    rw [spec n]
    by_cases later : n ∈ rest
    · simp [later]
    · by_cases same : n = name
      · subst same
        simp [later]
      · simp [later, same, Std.ExtTreeMap.getElem?_insert, Ne.symm same]

theorem loadNamed_error {answer : String → Except MoonclipError Bytes} {err : MoonclipError}
    (asked : name ∈ names) (unanswered : answer name = .error err) :
    ∃ e, loadNamed answer out names = .error e := by
  induction names generalizing out with
  | nil => simp at asked
  | cons first rest ih =>
    cases answered : answer first with
    | error e => exact ⟨e, by simp [loadNamed, answered, bind, Except.bind]⟩
    | ok data =>
      have later : name ∈ rest := by
        rcases List.mem_cons.mp asked with rfl | later
        · simp [answered] at unanswered
        · exact later
      obtain ⟨e, raised⟩ := @ih (out.insert first data) later
      exact ⟨e, by simp [loadNamed, answered, raised, bind, Except.bind]⟩

/-- Every tensor with bytes of its own was read where the rank loaded. -/
theorem own_of_loadEntries {f : TensorEntry → Except MoonclipError Bytes}
    (loaded : loadEntries f entries = .ok out) :
    ∀ e ∈ entries, e.storage ≠ .aliased → ∃ data, f e = .ok data := by
  intro e listed own
  simp only [loadEntries, bind_eq_ok, mapM_eq_ok] at loaded
  obtain ⟨pairs, read, _⟩ := loaded
  obtain ⟨pair, _, data, made, _⟩ := exists_result read (List.mem_filter.mpr ⟨listed, by simpa using own⟩)
  exact ⟨data, made⟩

section
variable [Zstd] [Xxh3]

/-- Where the entries are in order, a load of some tensors is what a load of all of them
returns, cut down to the names asked for. -/
theorem loadTensors_part {snap : Snapshot} {entry : RankEntry} (sheets : ∀ s ∈ m.snapshots, Ledger s.ranks)
    (found : m.findSnapshot snapId = some snap) (present : snap.ranks[rank]? = some entry)
    (asked : ∀ n ∈ names, n ∈ entry.tensors.map (·.name)) (loaded : load rank files m snapId = .ok out) :
    (∀ n ∈ names, (out[n]?).isSome = true) ∧
      ∃ part, loadTensors rank files m snapId names = .ok part ∧
        ∀ n : String, part[n]? = if n ∈ names then out[n]? else none := by
  have sheet := sheets snap (List.mem_of_find?_eq_some found) rank entry present
  simp only [load, found, loadRank, present, bind_eq_ok] at loaded
  obtain ⟨pack, packed, ctx, made, loaded⟩ := loaded
  generalize whole : Tensor.loadTensor files snap.baseSnapshotId snap.compression pack
    (resolver rank files m ctx) = readWhole at loaded
  obtain ⟨out', again, spec⟩ := loadEntries_ok sheet.distinct sheet.holders (own_of_loadEntries loaded)
  obtain rfl : out = out' := Except.ok.inj (loaded.symm.trans again)
  have answers : ∀ n ∈ names, ∃ data, out[n]? = some data ∧ (do
      let e ← entryFor snapId entry.tensors n
      Tensor.loadTensor files snap.baseSnapshotId snap.compression (rangedPack entry)
        (findBaseTensorEntryRanged rank m) e) = .ok data := by
    intro n chosen
    obtain ⟨e, listed, rfl⟩ := List.mem_map.mp (asked n chosen)
    obtain ⟨t, holder⟩ := sheet.holders e listed
    obtain ⟨data, read⟩ := own_of_loadEntries loaded t holder.listed holder.own
    refine ⟨data, (spec e.name data).mpr ⟨e, listed, rfl, t, holder, read⟩, ?_⟩
    simp only [entryFor_holder sheet listed holder, bind, Except.bind]
    rw [← whole] at read
    refine Tensor.loadTensor_ranged (packOf_spans packed) (sheet.inPack t holder.listed) ?_ data read
    intro id based n one looked
    exact resolver_ranged sheets (based ▸ made) looked
  have answered : ∀ n ∈ names, (do
      let e ← entryFor snapId entry.tensors n
      Tensor.loadTensor files snap.baseSnapshotId snap.compression (rangedPack entry)
        (findBaseTensorEntryRanged rank m) e) = .ok ((out[n]?).getD []) := by
    intro n chosen
    obtain ⟨data, held, read⟩ := answers n chosen
    rw [held]
    exact read
  obtain ⟨part, made, parts⟩ := loadNamed_ok ∅ answered
  refine ⟨fun n chosen => ?_, part, ?_, fun n => ?_⟩
  · obtain ⟨data, held, _⟩ := answers n chosen
    simp [held]
  · simp only [loadTensors, found, present]
    exact made
  · rw [parts n]
    by_cases chosen : n ∈ names
    · obtain ⟨data, held, _⟩ := answers n chosen
      simp [chosen, held]
    · simp [chosen]

/-- A name the snapshot does not have is an error, whatever else is asked for. -/
theorem loadTensors_absent {snap : Snapshot} {entry : RankEntry} (found : m.findSnapshot snapId = some snap)
    (present : snap.ranks[rank]? = some entry) (asked : name ∈ names)
    (absent : name ∉ entry.tensors.map (·.name)) : ∃ e, loadTensors rank files m snapId names = .error e := by
  simp only [loadTensors, found, present]
  apply loadNamed_error asked
  rw [entryFor_absent absent]
  rfl

end
end Coordinator
end Moonclip
