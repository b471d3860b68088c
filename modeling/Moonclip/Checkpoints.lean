import Moonclip.Library.Codec
import Moonclip.StateDicts
import Std.Data.String.ToNat

/-! Several state dicts in one checkpoint: taken apart under their labels, saved as one map
of names, and put together again from what a load returns. -/
namespace Moonclip
open Library.Dicts Library.Outcome

namespace PyTorch

/-- The dtypes the extension reads out of a tensor's memory. -/
def directDtypes : List Dtype :=
  [.float32, .float64, .float16, .bfloat16, .int8, .uint8, .int16, .int32, .int64, .bool, .uint16]

theorem known_of_direct {d : Dtype} (direct : d ∈ directDtypes) : d ∈ dtypeMap.map Prod.snd := by
  cases d <;> revert direct <;> decide

variable {α : Type}

mutual

def flattenState (keyPrefix : String) (counter : Nat) (out : TensorsOut) :
    Value α → Value α × Nat × TensorsOut
  | .tensor t =>
    if t.dtype ∈ directDtypes then
      let key := keyPrefix ++ "/t" ++ toString counter
      (t.placeholder key, counter + 1, out.set key t.entry)
    else (.tensor t, counter, out)
  | .dict items =>
    let (items, counter, out) := flattenStateItems keyPrefix counter out items
    (.dict items, counter, out)
  | .list items =>
    let (items, counter, out) := flattenStateElements keyPrefix counter out items
    (.list items, counter, out)
  | .tuple items =>
    let (items, counter, out) := flattenStateElements keyPrefix counter out items
    (.tuple items, counter, out)
  | .none => (.none, counter, out)
  | .str s => (.str s, counter, out)
  | .int n => (.int n, counter, out)
  | .other a => (.other a, counter, out)

def flattenStateItems (keyPrefix : String) (counter : Nat) (out : TensorsOut) :
    List (Key × Value α) → List (Key × Value α) × Nat × TensorsOut
  | [] => ([], counter, out)
  | (k, v) :: rest =>
    let (v, counter, out) := flattenState keyPrefix counter out v
    let (rest, counter, out) := flattenStateItems keyPrefix counter out rest
    ((k, v) :: rest, counter, out)

def flattenStateElements (keyPrefix : String) (counter : Nat) (out : TensorsOut) :
    List (Value α) → List (Value α) × Nat × TensorsOut
  | [] => ([], counter, out)
  | v :: rest =>
    let (v, counter, out) := flattenState keyPrefix counter out v
    let (rest, counter, out) := flattenStateElements keyPrefix counter out rest
    (v :: rest, counter, out)

end

namespace CheckpointManager

/-- What a checkpoint is made from; the state dict of a model maps names to parameters. -/
structure Objects (α : Type) where
  model : Option (Dict String (Value α))
  optimizer : Option (Value α)
  scheduler : Option (Value α)
  scaler : Option (Value α)
  extra : Dict String (Value α)

/-- The state dicts that are not the model's, under their labels. -/
def Objects.states (o : Objects α) : List (String × Value α) :=
  (o.optimizer.map fun sd => ("optimizer", sd)).toList ++
    (o.scheduler.map fun sd => ("scheduler", sd)).toList ++
    (o.scaler.map fun sd => ("scaler", sd)).toList ++ o.extra.items.map fun e => ("extra/" ++ e.1, e.2)

/-- The entries of the template of a model; a parameter is named after itself. -/
def flattenModel (out : TensorsOut) : List (String × Value α) → List (Key × Value α) × TensorsOut
  | [] => ([], out)
  | (name, param) :: rest =>
    match param with
    | .tensor t =>
      if t.dtype ∈ directDtypes then
        let key := "model/" ++ name
        let (template, out) := flattenModel (out.set key t.entry) rest
        ((.str name, t.placeholder key) :: template, out)
      else
        let (template, out) := flattenModel out rest
        ((.str name, param) :: template, out)
    | _ =>
      let (template, out) := flattenModel out rest
      ((.str name, param) :: template, out)

section
variable [Python α]

def addModel (out : TensorsOut) (model : Dict String (Value α)) : Except (PyError α) TensorsOut := do
  let (template, out) := flattenModel out model.items
  return out.set "model._metadata" ([], "uint8", ← Python.dumps (.dict template : Value α))

def addState (out : TensorsOut) (label : String) (sd : Value α) : Except (PyError α) TensorsOut := do
  let (template, _, out) := flattenState label 0 out sd
  return out.set (label ++ "._metadata") ([], "uint8", ← Python.dumps template)

/-- Everything `save` hands to the extension. -/
def allTensors (o : Objects α) : Except (PyError α) TensorsOut := do
  let out ← o.model.elim (.ok .empty) (addModel .empty)
  o.states.foldlM (fun out s => addState out s.1 s.2) out

end

end CheckpointManager

mutual

/-- The tensors that are taken out by number, in order. -/
def directs : Value α → List Tensor
  | .tensor t => if t.dtype ∈ directDtypes then [t] else []
  | .dict items => directsOfItems items
  | .list items | .tuple items => directsOfElements items
  | .none | .str _ | .int _ | .other _ => []

def directsOfItems : List (Key × Value α) → List Tensor
  | [] => []
  | (_, v) :: rest => directs v ++ directsOfItems rest

def directsOfElements : List (Value α) → List Tensor
  | [] => []
  | v :: rest => directs v ++ directsOfElements rest

end

mutual

theorem direct_of_mem (v : Value α) : ∀ t ∈ directs v, t.dtype ∈ directDtypes := by
  cases v with
  | tensor t =>
    by_cases direct : t.dtype ∈ directDtypes
    · simp [directs, direct]
    · simp [directs, direct]
  | dict items => exact direct_of_mem_items items
  | list items => exact direct_of_mem_elements items
  | tuple items => exact direct_of_mem_elements items
  | none => nofun
  | str s => nofun
  | int n => nofun
  | other a => nofun

theorem direct_of_mem_items (items : List (Key × Value α)) :
    ∀ t ∈ directsOfItems items, t.dtype ∈ directDtypes := by
  cases items with
  | nil => nofun
  | cons item rest =>
    exact List.forall_mem_append.mpr ⟨direct_of_mem item.2, direct_of_mem_items rest⟩

theorem direct_of_mem_elements (items : List (Value α)) :
    ∀ t ∈ directsOfElements items, t.dtype ∈ directDtypes := by
  cases items with
  | nil => nofun
  | cons v rest => exact List.forall_mem_append.mpr ⟨direct_of_mem v, direct_of_mem_elements rest⟩

end

/-- Each under its number, counted on from `counter`. -/
def numbered (keyPrefix : String) (counter : Nat) : List Tensor → List (String × Tensor)
  | [] => []
  | t :: ts => (keyPrefix ++ "/t" ++ toString counter, t) :: numbered keyPrefix (counter + 1) ts

variable {keyPrefix : String} {counter : Nat} {out : TensorsOut}

theorem numbered_append {ts us : List Tensor} : numbered keyPrefix counter (ts ++ us) =
    numbered keyPrefix counter ts ++ numbered keyPrefix (counter + ts.length) us := by
  induction ts generalizing counter with
  | nil => rfl
  | cons t ts ih =>
    rw [List.cons_append, numbered, ih, numbered, List.length_cons, List.cons_append, Nat.add_right_comm,
      Nat.add_assoc]

/-- What taking a value apart by number comes to: how far it counts, what it puts in, and
the template it leaves. -/
structure Taken (keyPrefix : String) (counter : Nat) (out : TensorsOut) (ts : List Tensor)
    (counter' : Nat) (out' : TensorsOut) : Prop where
  counted : counter' = counter + ts.length
  put : out' = out.taking (numbered keyPrefix counter ts)

theorem Taken.none : Taken keyPrefix counter out [] counter out where
  counted := rfl
  put := rfl

theorem Taken.append {ts us : List Tensor} {counter' counter'' : Nat} {out' out'' : TensorsOut}
    (first : Taken keyPrefix counter out ts counter' out')
    (others : Taken keyPrefix counter' out' us counter'' out'') :
    Taken keyPrefix counter out (ts ++ us) counter'' out'' where
  counted := by rw [others.counted, first.counted, List.length_append, Nat.add_assoc]
  put := by rw [others.put, first.put, numbered_append, TensorsOut.taking_append, first.counted]

mutual

theorem flattenState_taken (v : Value α) (keyPrefix : String) (counter : Nat) (out : TensorsOut) :
    Taken keyPrefix counter out (directs v) (flattenState keyPrefix counter out v).2.1
        (flattenState keyPrefix counter out v).2.2 ∧
      Template v (flattenState keyPrefix counter out v).1 (numbered keyPrefix counter (directs v)) := by
  cases v with
  | tensor t =>
    by_cases direct : t.dtype ∈ directDtypes
    · simp only [flattenState, directs, if_pos direct]
      exact ⟨⟨rfl, rfl⟩, .named t _⟩
    · simp only [flattenState, directs, if_neg direct]
      exact ⟨.none, .kept t⟩
  | dict items =>
    obtain ⟨taken, parts⟩ := flattenStateItems_taken items keyPrefix counter out
    exact ⟨taken, .dict parts⟩
  | list items =>
    obtain ⟨taken, parts⟩ := flattenStateElements_taken items keyPrefix counter out
    exact ⟨taken, .list parts⟩
  | tuple items =>
    obtain ⟨taken, parts⟩ := flattenStateElements_taken items keyPrefix counter out
    exact ⟨taken, .tuple parts⟩
  | none => exact ⟨.none, .none⟩
  | str s => exact ⟨.none, .str s⟩
  | int n => exact ⟨.none, .int n⟩
  | other a => exact ⟨.none, .other a⟩

theorem flattenStateItems_taken (items : List (Key × Value α)) (keyPrefix : String) (counter : Nat)
    (out : TensorsOut) :
    Taken keyPrefix counter out (directsOfItems items) (flattenStateItems keyPrefix counter out items).2.1
        (flattenStateItems keyPrefix counter out items).2.2 ∧
      TemplateItems items (flattenStateItems keyPrefix counter out items).1
        (numbered keyPrefix counter (directsOfItems items)) := by
  cases items with
  | nil => exact ⟨.none, .nil⟩
  | cons item rest =>
    obtain ⟨k, v⟩ := item
    obtain ⟨first, template⟩ := flattenState_taken v keyPrefix counter out
    obtain ⟨others, templates⟩ := flattenStateItems_taken rest keyPrefix
      (flattenState keyPrefix counter out v).2.1 (flattenState keyPrefix counter out v).2.2
    rw [directsOfItems, numbered_append, ← first.counted]
    exact ⟨first.append others, .cons k template templates⟩

theorem flattenStateElements_taken (items : List (Value α)) (keyPrefix : String) (counter : Nat)
    (out : TensorsOut) :
    Taken keyPrefix counter out (directsOfElements items)
      (flattenStateElements keyPrefix counter out items).2.1
        (flattenStateElements keyPrefix counter out items).2.2 ∧
      TemplateElements items (flattenStateElements keyPrefix counter out items).1
        (numbered keyPrefix counter (directsOfElements items)) := by
  cases items with
  | nil => exact ⟨.none, .nil⟩
  | cons v rest =>
    obtain ⟨first, template⟩ := flattenState_taken v keyPrefix counter out
    obtain ⟨others, templates⟩ := flattenStateElements_taken rest keyPrefix
      (flattenState keyPrefix counter out v).2.1 (flattenState keyPrefix counter out v).2.2
    rw [directsOfElements, numbered_append, ← first.counted]
    exact ⟨first.append others, .cons template templates⟩

end

theorem stem_eq_some {ending key label : String} : stem ending key = some label ↔ key = label ++ ending := by
  unfold stem
  split
  · rename_i ends
    rw [List.suffix_iff_eq_append] at ends
    rw [Option.some.injEq]
    constructor
    · rintro rfl
      rw [← String.toList_inj, String.toList_append, String.toList_ofList]
      exact ends.symm
    · rintro rfl
      rw [String.toList_append, List.length_append, Nat.add_sub_cancel, List.take_left', String.ofList_toList]
      rfl
  · rename_i other
    refine iff_of_false nofun ?_
    rintro rfl
    apply other
    rw [String.toList_append]
    exact List.suffix_append _ _

theorem stem_append {ending label : String} : stem ending (label ++ ending) = some label :=
  stem_eq_some.mpr rfl

/-- A name does not have an ending that ends otherwise. -/
theorem stem_eq_none {ending key : String} (some_ : ending.toList ≠ [])
    (other : key.toList.getLast? ≠ ending.toList.getLast?) : stem ending key = none := by
  rw [Option.eq_none_iff_forall_not_mem]
  intro label found
  obtain rfl := stem_eq_some.mp found
  apply other
  rw [String.toList_append]
  exact List.getLast?_append_of_ne_nil _ some_

section
variable [Python α]

/-- What is saved of one object: its tensors by name, and the template they were taken out
of, pickled. -/
structure Part (α : Type) [Python α] where
  label : String
  state : Value α
  template : Value α
  tensors : List (String × Tensor)
  made : Template state template tensors
  pickled : Bytes
  dumped : Python.dumps template = .ok pickled

def Part.entries (p : Part α) : List (String × List Nat × String × Bytes) :=
  p.tensors.map (fun t => (t.1, t.2.entry)) ++ [(p.label ++ "._metadata", [], "uint8", p.pickled)]

def Part.raw (p : Part α) : List (String × Bytes) :=
  p.tensors.map (fun t => (t.1, t.2.bytes)) ++ [(p.label ++ "._metadata", p.pickled)]

/-- A name that is not read as the name of something else than a tensor. -/
def Unreserved (name : String) : Prop := stem "._blob" name = none ∧ stem "._metadata" name = none

def Part.Unreserved (p : Part α) : Prop := ∀ t ∈ p.tensors, PyTorch.Unreserved t.1

variable {read : Bytes → Except (PyError α) (Value α)} {ending : String} {skips : Bool}
  {items rest : List (String × Bytes)} {result : Dict String (Value α)} {raw : Dict String Bytes}

omit [Python α] in
theorem gather_passing (other : ∀ e ∈ items, stem ending e.1 = none) :
    gather ending skips read (items ++ rest) result = gather ending skips read rest result := by
  induction items with
  | nil => rfl
  | cons item items ih =>
    rw [List.forall_mem_cons] at other
    rw [List.cons_append, gather, other.1]
    exact ih other.2

theorem stem_blob_metadata (label : String) : stem "._blob" (label ++ "._metadata") = none := by
  apply stem_eq_none (by decide)
  rw [String.toList_append, List.getLast?_append_of_ne_nil _ (by decide)]
  decide

/-- Reading the blobs finds none. -/
theorem gather_blobs {parts : List (Part α)} (unreserved : ∀ p ∈ parts, p.Unreserved) :
    gather "._blob" false read (parts.flatMap Part.raw) result = .ok result := by
  rw [← List.append_nil (parts.flatMap Part.raw), gather_passing]
  · rfl
  · intro e there
    obtain ⟨p, listed, there⟩ := List.mem_flatMap.mp there
    rcases List.mem_append.mp there with tensor | metadata
    · obtain ⟨t, named, rfl⟩ := List.mem_map.mp tensor
      exact (unreserved p listed t named).1
    · obtain rfl := List.mem_singleton.mp metadata
      exact stem_blob_metadata p.label

/-- Each template is read in turn, under its own label. -/
theorem gather_templates {parts : List (Part α)} (unreserved : ∀ p ∈ parts, p.Unreserved)
    (labels : (result.items.map Prod.fst ++ parts.map Part.label).Nodup) :
    Dict.items <$> gather "._metadata" true read (parts.flatMap Part.raw) result =
      (result.items ++ ·) <$> parts.mapM fun p => do return (p.label, ← read p.pickled) := by
  induction parts generalizing result with
  | nil => exact congrArg Except.ok (List.append_nil _).symm
  | cons p parts ih =>
    rw [List.forall_mem_cons] at unreserved
    have new : p.label ∉ result.items.map Prod.fst := by
      intro there
      exact List.disjoint_of_nodup_append labels there (List.mem_cons_self ..)
    have unread : (result.get? p.label).isSome = false := by
      rw [Option.isSome_eq_false_iff, Option.isNone_iff_eq_none, Dict.get?_eq_none]
      exact new
    have tensors : ∀ e ∈ p.tensors.map (fun t => (t.1, t.2.bytes)), stem "._metadata" e.1 = none := by
      intro e there
      obtain ⟨t, named, rfl⟩ := List.mem_map.mp there
      exact (unreserved.1 t named).2
    rw [List.flatMap_cons, Part.raw, List.append_assoc, gather_passing tensors, List.singleton_append, gather,
      stem_append, List.mapM_cons]
    simp only [unread, and_false, if_false, Bool.false_eq_true]
    cases found : read p.pickled with
    | error e => rfl
    | ok v =>
      have grown : (result.set p.label v).items = result.items ++ [(p.label, v)] :=
        Dict.items_set_of_notMem new
      have further : ((result.set p.label v).items.map Prod.fst ++ parts.map Part.label).Nodup := by
        rw [grown, List.map_append, List.append_assoc]
        exact labels
      have more := ih unreserved.2 further
      refine more.trans ?_
      rw [grown]
      cases (parts.mapM fun p => do return (p.label, ← read p.pickled) :
          Except (PyError α) (List (String × Value α))) with
      | error e => rfl
      | ok others => exact congrArg Except.ok (List.append_assoc _ _ _)

variable [LawfulPickle α]

/-- Parts that keep apart come back as the states they were made of, in order, unless one
of them has the mark of a placeholder or a dtype that is not known. -/
theorem unflatten_parts {parts : List (Part α)} (whole : raw.items = parts.flatMap Part.raw)
    (labels : (parts.map Part.label).Nodup) (unreserved : ∀ p ∈ parts, p.Unreserved) :
    Dict.items <$> unflattenStateDict raw = .ok (parts.map fun p => (p.label, p.state)) ↔
      ∀ p ∈ parts, Plain p.state ∧ Known p.tensors := by
  have held (p : Part α) (listed : p ∈ parts) : Held raw p.tensors := by
    intro t named
    rw [Dict.get?_eq_some, whole]
    refine List.mem_flatMap.mpr ⟨p, listed, List.mem_append_left _ ?_⟩
    exact List.mem_map.mpr ⟨t, named, rfl⟩
  have read : Dict.items <$> unflattenStateDict raw = parts.mapM fun p => do
      return (p.label, ← reconstructFromTensors raw p.template) := by
    rw [unflattenStateDict, whole, gather_blobs unreserved]
    have labels :
      ((Dict.empty : Dict String (Value α)).items.map Prod.fst ++ parts.map Part.label).Nodup := labels
    refine (gather_templates unreserved labels).trans ?_
    simp only [fun p : Part α => LawfulPickle.loads_dumps p.dumped]
    exact id_map _
  rw [read, mapM_eq_ok, List.forall₂_map_right_iff, List.forall₂_same]
  refine forall₂_congr fun p listed => ?_
  rw [← reconstruct_template p.state p.made (held p listed)]
  constructor
  · intro back
    obtain ⟨state, rebuilt, same⟩ := bind_eq_ok.mp back
    obtain rfl := (Prod.mk.inj (pure_eq_ok.mp same)).2
    exact rebuilt
  · intro rebuilt
    rw [rebuilt]
    rfl

end

/-- The last segment of a path is what comes after its last separator. -/
theorem segment_inj {xs ys as bs : List Char} (last : '/' ∉ as) (last' : '/' ∉ bs)
    (same : xs ++ '/' :: as = ys ++ '/' :: bs) : xs = ys ∧ as = bs := by
  rcases List.append_eq_append_iff.mp same with ⟨mid, rfl, rest⟩ | ⟨mid, rfl, rest⟩
  · cases mid with
    | nil => exact ⟨(List.append_nil xs).symm, (List.cons.inj rest).2⟩
    | cons c mid =>
      apply absurd _ last
      rw [(List.cons.inj rest).2]
      simp
  · cases mid with
    | nil => exact ⟨List.append_nil ys, (List.cons.inj rest).2.symm⟩
    | cons c mid =>
      apply absurd _ last'
      rw [(List.cons.inj rest).2]
      simp

theorem isDigit_of_mem_toString {n : Nat} {c : Char} (there : c ∈ (toString n).toList) : c.isDigit :=
  Nat.isDigit_of_mem_toDigits (by decide) (by decide) (Nat.toList_repr ▸ there)

/-- A tensor saved by number shares its name with no other, of any label. -/
theorem number_inj {label label' : String} {n m : Nat}
    (same : label ++ "/t" ++ toString n = label' ++ "/t" ++ toString m) : label = label' ∧ n = m := by
  have digits (n : Nat) : '/' ∉ 't' :: (toString n).toList := by
    intro there
    rcases List.mem_cons.mp there with eq | digit
    · contradiction
    · exact absurd (isDigit_of_mem_toString digit) (by decide)
  have text (label : String) (n : Nat) :
      (label ++ "/t" ++ toString n).toList = label.toList ++ '/' :: 't' :: (toString n).toList := by
    simp [String.toList_append]
  rw [← String.toList_inj, text, text] at same
  obtain ⟨labels, numbers⟩ := segment_inj (digits n) (digits m) same
  exact ⟨String.toList_inj.mp labels, Nat.repr_injective (String.toList_inj.mp (List.cons.inj numbers).2)⟩

theorem mem_numbered {ts : List Tensor} {t : String × Tensor} (there : t ∈ numbered keyPrefix counter ts) :
    ∃ n, counter ≤ n ∧ t.1 = keyPrefix ++ "/t" ++ toString n ∧ t.2 ∈ ts := by
  induction ts generalizing counter with
  | nil => contradiction
  | cons u ts ih =>
    rcases List.mem_cons.mp there with rfl | later
    · exact ⟨counter, Nat.le_refl _, rfl, List.mem_cons_self ..⟩
    · obtain ⟨n, after, named, listed⟩ := ih later
      exact ⟨n, Nat.le_of_succ_le after, named, List.mem_cons_of_mem _ listed⟩

theorem nodup_numbered {ts : List Tensor} : ((numbered keyPrefix counter ts).map Prod.fst).Nodup := by
  induction ts generalizing counter with
  | nil => exact List.nodup_nil
  | cons u ts ih =>
    rw [numbered, List.map_cons, List.nodup_cons]
    refine ⟨fun there => ?_, ih⟩
    obtain ⟨t, later, same⟩ := List.mem_map.mp there
    obtain ⟨n, after, named, -⟩ := mem_numbered later
    have := (number_inj (named.symm.trans same)).2
    omega

/-- A number does not end like a template or a blob. -/
theorem stem_number {ending : String} (letter : ∃ c ∈ ending.toList.getLast?, c.isDigit = false) {n : Nat} :
    stem ending (keyPrefix ++ "/t" ++ toString n) = none := by
  obtain ⟨c, last, letter⟩ := letter
  apply stem_eq_none
  · intro none
    rw [none] at last
    contradiction
  · intro same
    rw [String.toList_append, List.getLast?_append_of_ne_nil _ (by
      rw [Nat.toString_eq_repr, Nat.toList_repr]
      exact Nat.toDigits_ne_nil)] at same
    rw [← same] at last
    have digit := isDigit_of_mem_toString (List.mem_of_mem_getLast? last)
    rw [letter] at digit
    contradiction

mutual

/-- In none of its dicts are two keys printed alike, nor is there a separator in one. -/
def Separate : Value α → Prop
  | .dict items => (items.map fun item => item.1.text).Nodup ∧ (∀ item ∈ items, '/' ∉ item.1.text.toList) ∧
      SeparateItems items
  | .list items | .tuple items => SeparateElements items
  | .tensor _ | .none | .str _ | .int _ | .other _ => True

def SeparateItems : List (Key × Value α) → Prop
  | [] => True
  | (_, v) :: rest => Separate v ∧ SeparateItems rest

def SeparateElements : List (Value α) → Prop
  | [] => True
  | v :: rest => Separate v ∧ SeparateElements rest

end

theorem spelled_begins (ks : List Key) : spelled ks = "" ∨ ∃ text, spelled ks = "/" ++ text := by
  cases ks with
  | nil => exact .inl rfl
  | cons k ks => exact .inr ⟨k.text ++ spelled ks, String.append_assoc ..⟩

/-- A path is split where its first key ends. -/
theorem spelled_cons_inj {k j : Key} {ks js : List Key} (plain : '/' ∉ k.text.toList)
    (plain' : '/' ∉ j.text.toList)
    (same : spelled (k :: ks) = spelled (j :: js)) : k.text = j.text ∧ spelled ks = spelled js := by
  have first {k : Key} {ks : List Key} (plain : '/' ∉ k.text.toList) :
      ((k.text ++ spelled ks).toList).takeWhile (· ≠ '/') = k.text.toList := by
    have all : ∀ c ∈ k.text.toList, decide (c ≠ '/') = true := by
      intro c there
      rw [decide_eq_true_eq]
      rintro rfl
      exact plain there
    rw [String.toList_append, List.takeWhile_append_of_pos all]
    rcases spelled_begins ks with empty | ⟨text, begins⟩
    · rw [empty]
      exact List.append_nil _
    · rw [begins, String.toList_append]
      exact List.append_nil _
  rw [spelled, spelled, String.append_assoc, String.append_assoc, ← String.toList_inj,
    String.toList_append (s := "/"), String.toList_append (s := "/")] at same
  have rest := String.toList_inj.mp (List.append_cancel_left same)
  have keys : k.text = j.text := by
    rw [← String.toList_inj, ← @first k ks plain, rest, first plain']
  rw [← String.toList_inj, String.toList_append, String.toList_append, keys] at rest
  exact ⟨keys, String.toList_inj.mp (List.append_cancel_left rest)⟩

theorem head_positionsOfItems {items : List (Key × Value α)} :
    ∀ p ∈ positionsOfItems items, ∃ item ∈ items, ∃ ks, p.1 = item.1 :: ks := by
  induction items with
  | nil => nofun
  | cons item rest ih =>
    intro p there
    rcases List.mem_append.mp there with here | later
    · obtain ⟨q, -, rfl⟩ := List.mem_map.mp here
      exact ⟨item, List.mem_cons_self .., q.1, rfl⟩
    · obtain ⟨item', listed, ks, path⟩ := ih p later
      exact ⟨item', List.mem_cons_of_mem _ listed, ks, path⟩

theorem head_positionsOfElements {items : List (Value α)} {idx : Nat} :
    ∀ p ∈ positionsOfElements idx items, ∃ i : Nat, idx ≤ i ∧ ∃ ks, p.1 = .int i :: ks := by
  induction items generalizing idx with
  | nil => nofun
  | cons v rest ih =>
    intro p there
    rcases List.mem_append.mp there with here | later
    · obtain ⟨q, -, rfl⟩ := List.mem_map.mp here
      exact ⟨idx, Nat.le_refl _, q.1, rfl⟩
    · obtain ⟨i, after, ks, path⟩ := ih p later
      exact ⟨i, Nat.le_of_succ_le after, ks, path⟩

theorem notMem_index (i : Nat) : '/' ∉ (Key.int i).text.toList := by
  intro there
  exact absurd (isDigit_of_mem_toString (n := i) there) (by decide)

theorem nodup_cons_positions {k : Key} {ps : List (List Key × Tensor)}
    (distinct : (ps.map fun p => spelled p.1).Nodup) :
    ((ps.map fun p => (k :: p.1, p.2)).map fun p => spelled p.1).Nodup := by
  have each : ((ps.map fun p => (k :: p.1, p.2)).map fun p => spelled p.1) =
      (ps.map fun p => spelled p.1).map fun text => "/" ++ k.text ++ text := by
    rw [List.map_map, List.map_map]
    rfl
  rw [each]
  refine distinct.map fun a b same => ?_
  rw [← String.toList_inj, String.toList_append (s := "/" ++ k.text),
    String.toList_append (s := "/" ++ k.text)] at same
  exact String.toList_inj.mp (List.append_cancel_left same)

mutual

theorem nodup_positions (v : Value α) (separate : Separate v) :
    ((positions v).map fun p => spelled p.1).Nodup := by
  cases v with
  | tensor t => exact List.nodup_singleton _
  | dict items => exact nodup_positionsOfItems items separate.1 separate.2.1 separate.2.2
  | list items => exact nodup_positionsOfElements items 0 separate
  | tuple items => exact nodup_positionsOfElements items 0 separate
  | none => exact List.nodup_nil
  | str s => exact List.nodup_nil
  | int n => exact List.nodup_nil
  | other a => exact List.nodup_nil

theorem nodup_positionsOfItems (items : List (Key × Value α))
    (keys : (items.map fun item => item.1.text).Nodup)
    (plain : ∀ item ∈ items, '/' ∉ item.1.text.toList) (separate : SeparateItems items) :
    ((positionsOfItems items).map fun p => spelled p.1).Nodup := by
  cases items with
  | nil => exact List.nodup_nil
  | cons item rest =>
    rw [List.map_cons, List.nodup_cons] at keys
    rw [List.forall_mem_cons] at plain
    rw [positionsOfItems, List.map_append, List.nodup_append']
    refine ⟨nodup_cons_positions (nodup_positions item.2 separate.1),
      nodup_positionsOfItems rest keys.2 plain.2 separate.2, ?_⟩
    intro text here later
    obtain ⟨p, there, rfl⟩ := List.mem_map.mp here
    obtain ⟨q, -, rfl⟩ := List.mem_map.mp there
    obtain ⟨p', there', same⟩ := List.mem_map.mp later
    obtain ⟨item', listed, ks, path⟩ := head_positionsOfItems p' there'
    rw [path] at same
    refine keys.1 (List.mem_map.mpr ⟨item', listed, ?_⟩)
    exact (spelled_cons_inj (plain.2 item' listed) plain.1 same).1

theorem nodup_positionsOfElements (items : List (Value α)) (idx : Nat) (separate : SeparateElements items) :
    ((positionsOfElements idx items).map fun p => spelled p.1).Nodup := by
  cases items with
  | nil => exact List.nodup_nil
  | cons v rest =>
    rw [positionsOfElements, List.map_append, List.nodup_append']
    refine ⟨nodup_cons_positions (nodup_positions v separate.1),
      nodup_positionsOfElements rest (idx + 1) separate.2, ?_⟩
    intro text here later
    obtain ⟨p, there, rfl⟩ := List.mem_map.mp here
    obtain ⟨q, -, rfl⟩ := List.mem_map.mp there
    obtain ⟨p', there', same⟩ := List.mem_map.mp later
    obtain ⟨i, after, ks, path⟩ := head_positionsOfElements p' there'
    rw [path] at same
    have indices : i = idx := Nat.repr_injective (spelled_cons_inj (notMem_index i) (notMem_index idx) same).1
    omega

end

theorem nodup_named {label : String} {v : Value α} (separate : Separate v) :
    ((named label (positions v)).map Prod.fst).Nodup := by
  have names : (named label (positions v)).map Prod.fst =
    ((positions v).map fun p => spelled p.1).map (label ++ ·) := by
    rw [named, List.map_map, List.map_map]
    rfl
  rw [names]
  refine (nodup_positions v separate).map fun a b same => ?_
  rw [← String.toList_inj, String.toList_append, String.toList_append] at same
  exact String.toList_inj.mp (List.append_cancel_left same)

section
variable [Python α]

/-- The names of one part. -/
def Part.names (p : Part α) : List String := p.tensors.map Prod.fst ++ [p.label ++ "._metadata"]

theorem Part.keys_entries (p : Part α) : p.entries.map Prod.fst = p.names := by
  simp [Part.entries, Part.names]

theorem rawOf_items {parts : List (Part α)} (whole : out.items = parts.flatMap Part.entries) :
    (rawOf out).items = parts.flatMap Part.raw := by
  have each (p : Part α) : p.entries.map (fun e => (e.1, e.2.2.2)) = p.raw := by
    simp [Part.entries, Part.raw, Tensor.entry]
  calc (rawOf out).items = (parts.flatMap Part.entries).map fun e => (e.1, e.2.2.2) := by rw [← whole]; rfl
    _ = parts.flatMap Part.raw := by rw [List.map_flatMap, funext each]

end

section
variable [Python α] {label : String} {state metadata : Value α}

theorem flattenStateDict_part (flattened : flattenStateDict state label = .ok (out, metadata)) :
    ∃ p : Part α, p.label = label ∧ p.state = state ∧ p.tensors = named label (positions state) ∧
      out = .update .empty p.entries := by
  obtain ⟨pickled, dumped, put⟩ := bind_eq_ok.mp flattened
  refine ⟨⟨label, state, _, _, flatten_template state label .empty, pickled, dumped⟩, rfl, rfl, rfl, ?_⟩
  rw [Part.entries, Dict.update, List.foldl_append, ← (Prod.mk.inj (pure_eq_ok.mp put)).1]
  exact congrArg (Dict.set · _ _) (flatten_out state label .empty)

/-- A state dict whose tensors are saved under different names comes back under its label,
unless a dict in it has the mark of a placeholder or a tensor is of a dtype that is not
known. -/
theorem unflatten_flatten [LawfulPickle α] (flattened : flattenStateDict state label = .ok (out, metadata))
    (apart : ((named label (positions state)).map Prod.fst).Nodup)
    (unreserved : ∀ p ∈ positions state, Unreserved (label ++ spelled p.1)) :
    Dict.items <$> unflattenStateDict (rawOf out) = .ok [(label, state)] ↔
      Plain state ∧ ∀ p ∈ positions state, p.2.dtype ∈ dtypeMap.map Prod.snd := by
  obtain ⟨p, rfl, rfl, tensors, put⟩ := flattenStateDict_part flattened
  have unread : p.Unreserved := by
    rw [Part.Unreserved, tensors, named, List.forall_mem_map]
    exact unreserved
  have distinct : p.names.Nodup := by
    rw [Part.names, List.nodup_append']
    refine ⟨tensors ▸ apart, List.nodup_singleton _, ?_⟩
    intro name tensor template
    obtain ⟨t, there, rfl⟩ := List.mem_map.mp tensor
    have none := (unread t there).2
    rw [List.mem_singleton.mp template, stem_append] at none
    contradiction
  have whole : (rawOf out).items = [p].flatMap Part.raw := by
    apply rawOf_items
    rw [put]
    refine (Dict.items_update ?_).trans ?_
    · rw [Part.keys_entries]
      exact distinct
    · simp [Dict.empty]
  have back := unflatten_parts whole (List.nodup_singleton _) (by simpa using unread)
  rw [List.map_singleton] at back
  rw [back, List.forall_mem_singleton, Known, tensors, named, List.forall_mem_map]

end

/-- The pickle of a few values. -/
abbrev pickleOf [DecidableEq α] (rows : List (Value α × Bytes)) : Python α where
  dumps v := ((Library.Codec.Serializer.table rows).toVec v).mapError fun _ => .pickling
  loads text := ((Library.Codec.Serializer.table rows).fromSlice text).mapError fun _ => .unpickling
  hashable _ := true
  empty shape d := ⟨⟨shape, d, List.replicate (shape.prod * d.itemsize) 0, List.length_replicate⟩, rfl, rfl⟩

theorem pickleOf_lawful [DecidableEq α] {rows : List (Value α × Bytes)} (distinct : (rows.map Prod.snd).Nodup)
    (closed : ∀ row ∈ rows, Library.Codec.Closed row.2) : @LawfulPickle α (pickleOf rows) := by
  refine @LawfulPickle.mk α (pickleOf rows) ?_
  intro v text dumped
  have lawful := Library.Codec.Serializer.table_lawful distinct closed
  have written := mapError_eq_ok.mp dumped
  exact mapError_eq_ok.mpr (lawful.roundTrip written)

/-- A state dict of one tensor and a number. -/
abbrev oneTensor : Value Empty :=
  .dict [(.str "w", .tensor ⟨[2], .int8, [3, 4], rfl⟩), (.str "n", .int 5)]

abbrev oneTemplate : Value Empty := (flattenAndExtractTensors "model" .empty oneTensor).1

abbrev onePickle : Python Empty := pickleOf [(oneTemplate, [1])]

/-- With the template pickled in one byte. -/
theorem unflatten_flatten_one :
    ∃ out metadata, @flattenStateDict _ onePickle oneTensor "model" = .ok (out, metadata) ∧
      Dict.items <$> @unflattenStateDict _ onePickle (rawOf out) = .ok [("model", oneTensor)] := by
  have lawful : @LawfulPickle Empty onePickle := pickleOf_lawful (by decide) (by simp [Library.Codec.Closed])
  have flattened : @flattenStateDict _ onePickle oneTensor "model" = .ok
      ((flattenAndExtractTensors "model" .empty oneTensor).2.set ("model" ++ "._metadata") ([], "uint8", [1]),
        oneTemplate) := by
    rfl
  refine ⟨_, _, flattened, (@unflatten_flatten _ _ onePickle _ _ _ lawful flattened ?_ ?_).mpr ⟨?_, ?_⟩⟩
  · exact nodup_named (by simp [Separate, SeparateItems, Key.text])
  · intro p there
    simp [positions, positionsOfItems] at there
    subst there
    exact ⟨by decide, by decide⟩
  · simp [Plain, PlainItems]
  · simp [positions, positionsOfItems, dtypeMap]

namespace CheckpointManager

/-- Which parameters of a model are saved as tensors of their own. -/
def parameters (items : List (String × Value α)) : List (String × Tensor) :=
  items.filterMap fun item => match item.2 with
    | .tensor t => if t.dtype ∈ directDtypes then some ("model/" ++ item.1, t) else none
    | _ => none

mutual

theorem template_refl (v : Value α) : Template v v [] := by
  cases v with
  | tensor t => exact .kept t
  | dict items => exact .dict (templateItems_refl items)
  | list items => exact .list (templateElements_refl items)
  | tuple items => exact .tuple (templateElements_refl items)
  | none => exact .none
  | str s => exact .str s
  | int n => exact .int n
  | other a => exact .other a

theorem templateItems_refl (items : List (Key × Value α)) : TemplateItems items items [] := by
  cases items with
  | nil => exact .nil
  | cons item rest => exact .cons item.1 (template_refl item.2) (templateItems_refl rest)

theorem templateElements_refl (items : List (Value α)) : TemplateElements items items [] := by
  cases items with
  | nil => exact .nil
  | cons v rest => exact .cons (template_refl v) (templateElements_refl rest)

end

/-- A model's state dict as one value. -/
def dictOf (items : List (String × Value α)) : List (Key × Value α) := items.map fun item =>
    (.str item.1, item.2)

theorem flattenModel_taken (items : List (String × Value α)) (out : TensorsOut) :
    (flattenModel out items).2 = out.taking (parameters items) ∧
      TemplateItems (dictOf items) (flattenModel out items).1 (parameters items) := by
  induction items generalizing out with
  | nil => exact ⟨rfl, .nil⟩
  | cons item rest ih =>
    obtain ⟨name, param⟩ := item
    cases param with
    | tensor t =>
      by_cases direct : t.dtype ∈ directDtypes
      · simp only [flattenModel, parameters, List.filterMap_cons, if_pos direct]
        obtain ⟨put, made⟩ := ih (out.set ("model/" ++ name) t.entry)
        exact ⟨put, .cons _ (.named t _) made⟩
      · simp only [flattenModel, parameters, List.filterMap_cons, if_neg direct]
        exact ⟨(ih out).1, .cons _ (.kept t) (ih out).2⟩
    | none | str | int | other | dict | list | tuple =>
      exact ⟨(ih out).1, .cons _ (template_refl _) (ih out).2⟩

theorem head_extra {name : String} : ("extra/" ++ name).toList.head? = some 'e' := by
  rw [String.toList_append]
  rfl

/-- The first letter of a label; the names of a model begin with another. -/
theorem Objects.labels_begin (o : Objects α) : ∀ s ∈ o.states, ∃ c, s.1.toList.head? = some c ∧ c ≠ 'm' := by
  intro s there
  simp only [Objects.states, List.mem_append, Option.mem_toList, Option.map_eq_some_iff,
    List.mem_map] at there
  rcases there with ((⟨sd, -, rfl⟩ | ⟨sd, -, rfl⟩) | ⟨sd, -, rfl⟩) | ⟨e, -, rfl⟩
  · exact ⟨'o', (by decide : "optimizer".toList.head? = some 'o'), by decide⟩
  · exact ⟨'s', (by decide : "scheduler".toList.head? = some 's'), by decide⟩
  · exact ⟨'s', (by decide : "scaler".toList.head? = some 's'), by decide⟩
  · exact ⟨'e', head_extra, by decide⟩

theorem Objects.labels_nodup (o : Objects α) : (o.states.map Prod.fst).Nodup := by
  have one (label : String) (sd : Option (Value α)) :
      ((sd.map fun sd => (label, sd)).toList.map Prod.fst).Sublist [label] := by
    cases sd with
    | none => exact List.nil_sublist _
    | some sd => exact List.Sublist.refl _
  have fixed : ((o.optimizer.map fun sd => ("optimizer", sd)).toList ++
      (o.scheduler.map fun sd => ("scheduler", sd)).toList ++
      (o.scaler.map fun sd => ("scaler", sd)).toList).map Prod.fst |>.Sublist
        ["optimizer", "scheduler", "scaler"] := by
    rw [List.map_append, List.map_append]
    exact ((one _ _).append (one _ _)).append (one _ _)
  rw [Objects.states, List.map_append, List.map_map, List.nodup_append']
  refine ⟨fixed.nodup (by decide), ?_, ?_⟩
  · have apart := o.extra.distinct.map (f := fun name => "extra/" ++ name) fun a b same => by
      rw [← String.toList_inj, String.toList_append, String.toList_append] at same
      exact String.toList_inj.mp (List.append_cancel_left same)
    rwa [List.map_map] at apart
  · intro label there extra
    obtain ⟨e, -, rfl⟩ := List.mem_map.mp extra
    have letters : ∀ label ∈ ["optimizer", "scheduler", "scaler"], label.toList.head? ≠ some 'e' := by
      decide
    exact letters _ (fixed.subset there) head_extra

section
variable [Python α]

theorem addState_part {out out' : TensorsOut} {label : String} {sd : Value α}
    (added : addState out label sd = .ok out') :
    ∃ p : Part α, p.label = label ∧ p.state = sd ∧ p.tensors = numbered label 0 (directs sd) ∧
      out' = out.update p.entries := by
  obtain ⟨taken, made⟩ := flattenState_taken sd label 0 out
  obtain ⟨pickled, dumped, put⟩ := bind_eq_ok.mp added
  refine ⟨⟨label, sd, _, _, made, pickled, dumped⟩, rfl, rfl, rfl, ?_⟩
  rw [Part.entries, Dict.update, List.foldl_append, ← pure_eq_ok.mp put]
  exact congrArg (Dict.set · _ _) taken.put

theorem addModel_part {out out' : TensorsOut} {model : Dict String (Value α)}
    (added : addModel out model = .ok out') :
    ∃ p : Part α, p.label = "model" ∧ p.state = .dict (dictOf model.items) ∧
      p.tensors = parameters model.items ∧
      out' = out.update p.entries := by
  obtain ⟨taken, made⟩ := flattenModel_taken model.items out
  obtain ⟨pickled, dumped, put⟩ := bind_eq_ok.mp added
  refine ⟨⟨"model", _, _, _, .dict made, pickled, dumped⟩, rfl, rfl, rfl, ?_⟩
  rw [Part.entries, Dict.update, List.foldl_append, ← pure_eq_ok.mp put]
  exact congrArg (Dict.set · _ _) taken

/-- The state dicts a checkpoint holds, under their labels. -/
def Objects.saved (o : Objects α) : List (String × Value α) :=
  (o.model.map fun m => ("model", .dict (dictOf m.items))).toList ++ o.states

theorem addStates_parts {states : List (String × Value α)} {out out' : TensorsOut}
    (added : states.foldlM (fun out s => addState out s.1 s.2) out = .ok out') :
      ∃ parts : List (Part α), parts.map (fun p => (p.label, p.state)) = states ∧
      (∀ p ∈ parts, p.tensors = numbered p.label 0 (directs p.state)) ∧
      out' = out.update (parts.flatMap Part.entries) := by
  induction states generalizing out with
  | nil => exact ⟨[], rfl, nofun, (pure_eq_ok.mp added).symm⟩
  | cons s rest ih =>
    rw [List.foldlM_cons] at added
    obtain ⟨mid, first, added⟩ := bind_eq_ok.mp added
    obtain ⟨p, label, state, tensors, put⟩ := addState_part first
    obtain ⟨parts, states, numbers, others⟩ := ih added
    refine ⟨p :: parts, ?_, ?_, ?_⟩
    · rw [List.map_cons, states, label, state]
    · rw [List.forall_mem_cons]
      refine ⟨?_, numbers⟩
      rw [tensors, label, state]
    · rw [others, put, List.flatMap_cons, Dict.update, Dict.update, Dict.update, List.foldl_append]

/-- A name that begins like a label of the second kind is not one that begins like the model. -/
theorem ne_of_head {label text text' : String} (begins : ∃ c, label.toList.head? = some c ∧ c ≠ 'm') :
    "model" ++ text' ≠ label ++ text := by
  intro same
  obtain ⟨c, first, other⟩ := begins
  rw [← String.toList_inj, String.toList_append, String.toList_append] at same
  have heads := congrArg List.head? same
  rw [List.head?_append, List.head?_append, first] at heads
  exact other (Option.some.inj heads).symm

/-- Names by number and the name of a template are apart, also those of another label. -/
theorem disjoint_names {p q : Part α} (byNumber : p.tensors = numbered p.label 0 (directs p.state))
    (byNumber' : q.tensors = numbered q.label 0 (directs q.state)) (other : p.label ≠ q.label) :
    p.names.Disjoint q.names := by
  have untemplated (label' label : String) (n : Nat) : label' ++ "._metadata" ≠ label ++ "/t" ++
    toString n := by
    intro same
    have none : stem "._metadata" (label ++ "/t" ++ toString n) = none :=
      stem_number ⟨'a', by decide, by decide⟩
    rw [← same, stem_append] at none
    contradiction
  intro name here there
  rw [Part.names, byNumber, List.mem_append, List.mem_singleton] at here
  rw [Part.names, byNumber', List.mem_append, List.mem_singleton] at there
  rcases here with tensor | rfl
  · obtain ⟨t, listed, rfl⟩ := List.mem_map.mp tensor
    obtain ⟨n, -, named, -⟩ := mem_numbered listed
    rcases there with tensor' | template
    · obtain ⟨u, listed', same⟩ := List.mem_map.mp tensor'
      obtain ⟨m, -, named', -⟩ := mem_numbered listed'
      rw [named, named'] at same
      exact other (number_inj same).1.symm
    · exact untemplated _ _ n (template.symm.trans named)
  · rcases there with tensor' | template
    · obtain ⟨u, listed', same⟩ := List.mem_map.mp tensor'
      obtain ⟨m, -, named', -⟩ := mem_numbered listed'
      exact untemplated _ _ m (same.symm.trans named')
    · rw [← String.toList_inj, String.toList_append, String.toList_append] at template
      exact other (String.toList_inj.mp (List.append_cancel_right template))

/-- A state saved by number. -/
structure Numbered (p : Part α) : Prop where
  byNumber : p.tensors = numbered p.label 0 (directs p.state)
  begins : ∃ c, p.label.toList.head? = some c ∧ c ≠ 'm'

theorem Numbered.sound {p : Part α} (numbers : Numbered p) :
    p.names.Nodup ∧ p.Unreserved ∧ Known p.tensors ∧ ∀ name ∈ p.names, ∃ text, name = p.label ++ text := by
  have each : ∀ t ∈ p.tensors, ∃ n : Nat, t.1 = p.label ++ "/t" ++ toString n ∧ t.2 ∈ directs p.state := by
    intro t there
    rw [numbers.byNumber] at there
    obtain ⟨n, -, named, listed⟩ := mem_numbered there
    exact ⟨n, named, listed⟩
  have unreserved : p.Unreserved := by
    intro t there
    obtain ⟨n, named, -⟩ := each t there
    rw [Unreserved, named]
    exact ⟨stem_number ⟨'b', by decide, by decide⟩, stem_number ⟨'a', by decide, by decide⟩⟩
  refine ⟨?_, unreserved, ?_, ?_⟩
  · rw [Part.names, List.nodup_append']
    refine ⟨numbers.byNumber ▸ nodup_numbered, List.nodup_singleton _, ?_⟩
    intro name tensor template
    obtain ⟨t, there, rfl⟩ := List.mem_map.mp tensor
    have none := (unreserved t there).2
    rw [List.mem_singleton.mp template, stem_append] at none
    contradiction
  · intro t there
    obtain ⟨n, -, listed⟩ := each t there
    exact known_of_direct (direct_of_mem p.state t.2 listed)
  · intro name there
    rcases List.mem_append.mp there with tensor | template
    · obtain ⟨t, listed, rfl⟩ := List.mem_map.mp tensor
      obtain ⟨n, named, -⟩ := each t listed
      exact ⟨"/t" ++ toString n, by rw [named, String.append_assoc]⟩
    · exact ⟨"._metadata", List.mem_singleton.mp template⟩

omit [Python α] in
theorem mem_parameters {items : List (String × Value α)} {t : String × Tensor}
    (there : t ∈ parameters items) :
    ∃ name ∈ items.map Prod.fst, t.1 = "model/" ++ name ∧ t.2.dtype ∈ directDtypes := by
  obtain ⟨item, listed, chosen⟩ := List.mem_filterMap.mp there
  split at chosen
  · split at chosen
    · rename_i direct
      obtain rfl := Option.some.inj chosen
      exact ⟨item.1, List.mem_map_of_mem listed, rfl, direct⟩
    · contradiction
  · contradiction

omit [Python α] in
theorem nodup_parameters {items : List (String × Value α)} (distinct : (items.map Prod.fst).Nodup) :
    ((parameters items).map Prod.fst).Nodup := by
  induction items with
  | nil => exact List.nodup_nil
  | cons item rest ih =>
    rw [List.map_cons, List.nodup_cons] at distinct
    rw [parameters, List.filterMap_cons]
    split
    · exact ih distinct.2
    · rename_i t chosen
      rw [List.map_cons, List.nodup_cons]
      refine ⟨fun again => ?_, ih distinct.2⟩
      obtain ⟨u, later, same⟩ := List.mem_map.mp again
      obtain ⟨name, listed, named, -⟩ := mem_parameters later
      have alone : t ∈ parameters [item] := by
        rw [parameters, List.filterMap_cons, chosen]
        exact List.mem_singleton_self _
      obtain ⟨name', one, named', -⟩ := mem_parameters alone
      rw [List.map_singleton, List.mem_singleton] at one
      rw [named, named', ← String.toList_inj, String.toList_append, String.toList_append] at same
      obtain rfl := String.toList_inj.mp (List.append_cancel_left same)
      exact distinct.1 (one ▸ listed)

/-- What `save` hands over, part by part. -/
theorem exists_parts {o : Objects α} (collected : allTensors o = .ok out)
    (unreserved : ∀ m ∈ o.model, ∀ t ∈ parameters m.items, Unreserved t.1) :
    ∃ parts : List (Part α), parts.map (fun p => (p.label, p.state)) = o.saved ∧
      (rawOf out).items = parts.flatMap Part.raw ∧ (parts.map Part.label).Nodup ∧
      (∀ p ∈ parts, p.Unreserved) ∧ ∀ p ∈ parts, Known p.tensors := by
  obtain ⟨first, begun, added⟩ := bind_eq_ok.mp collected
  obtain ⟨parts, states, byNumber, put⟩ := addStates_parts added
  have numbers : ∀ p ∈ parts, Numbered p := by
    intro p there
    refine ⟨byNumber p there, o.labels_begin (p.label, p.state) ?_⟩
    rw [← states]
    exact List.mem_map_of_mem there
  have labels : (parts.map Part.label).Nodup := by
    have nodup := o.labels_nodup
    rwa [← states, List.map_map] at nodup
  have apart : (parts.flatMap Part.names).Nodup := by
    rw [List.nodup_flatMap]
    refine ⟨fun p there => (numbers p there).sound.1, ?_⟩
    refine (List.pairwise_map.mp labels).imp_of_mem ?_
    intro p q there there' other
    exact disjoint_names (numbers p there).byNumber (numbers q there').byNumber other
  cases model : o.model with
  | none =>
    refine ⟨parts, ?_, rawOf_items ?_, labels, fun p there => (numbers p there).sound.2.1,
      fun p there => (numbers p there).sound.2.2.1⟩
    · rw [states, Objects.saved, model]
      rfl
    · rw [model] at begun
      obtain rfl := Except.ok.inj begun
      rw [put]
      refine (Dict.items_update ?_).trans (List.nil_append _)
      simpa [List.map_flatMap, Part.keys_entries, Dict.empty] using apart
  | some m =>
    rw [model] at unreserved
    rw [model] at begun
    obtain ⟨p, label, state, tensors, put'⟩ := addModel_part begun
    have mine : ∀ name ∈ p.names, ∃ text, name = "model" ++ text := by
      intro name there
      rw [Part.names, tensors, label] at there
      rcases List.mem_append.mp there with tensor | template
      · obtain ⟨t, listed, rfl⟩ := List.mem_map.mp tensor
        obtain ⟨name, -, named, -⟩ := mem_parameters listed
        exact ⟨"/" ++ name, by rw [named, ← String.append_assoc]; rfl⟩
      · exact ⟨"._metadata", List.mem_singleton.mp template⟩
    have distinct : p.names.Nodup := by
      rw [Part.names, tensors, List.nodup_append']
      refine ⟨nodup_parameters m.distinct, List.nodup_singleton _, ?_⟩
      intro name tensor template
      obtain ⟨t, there, rfl⟩ := List.mem_map.mp tensor
      have none := (unreserved m rfl t there).2
      rw [List.mem_singleton.mp template, stem_append] at none
      contradiction
    have foreign : ∀ q ∈ parts, p.names.Disjoint q.names := by
      intro q listed name here there
      obtain ⟨text', rfl⟩ := mine name here
      obtain ⟨text, same⟩ := (numbers q listed).sound.2.2.2 _ there
      exact ne_of_head (numbers q listed).begins same
    refine ⟨p :: parts, ?_, rawOf_items ?_, ?_, ?_, ?_⟩
    · rw [List.map_cons, states, Objects.saved, model, label, state]
      rfl
    · have whole : out = .update .empty ((p :: parts).flatMap Part.entries) := by
        rw [put, put', List.flatMap_cons, Dict.update, Dict.update, Dict.update, List.foldl_append]
      rw [whole]
      refine (Dict.items_update ?_).trans (List.nil_append _)
      have all : ((p :: parts).flatMap Part.names).Nodup := by
        rw [List.flatMap_cons, List.nodup_append']
        refine ⟨distinct, apart, ?_⟩
        intro name here there
        obtain ⟨q, listed, there⟩ := List.mem_flatMap.mp there
        exact foreign q listed here there
      simpa [List.map_flatMap, Part.keys_entries, Dict.empty] using all
    · rw [List.map_cons, List.nodup_cons]
      refine ⟨fun again => ?_, labels⟩
      obtain ⟨q, listed, same⟩ := List.mem_map.mp again
      obtain ⟨c, first, other⟩ := (numbers q listed).begins
      rw [same, label] at first
      exact other (Option.some.inj first).symm
    · rw [List.forall_mem_cons, Part.Unreserved, tensors]
      exact ⟨unreserved m rfl, fun q listed => (numbers q listed).sound.2.1⟩
    · rw [List.forall_mem_cons, tensors]
      refine ⟨?_, fun q listed => (numbers q listed).sound.2.2.1⟩
      intro t there
      obtain ⟨-, -, -, direct⟩ := mem_parameters there
      exact known_of_direct direct

variable [LawfulPickle α]

/-- What is saved is what is loaded: each state dict under its label and nothing else,
unless some dict in one of them has the mark of a placeholder. -/
theorem unflatten_allTensors {o : Objects α} (collected : allTensors o = .ok out)
    (unreserved : ∀ m ∈ o.model, ∀ t ∈ parameters m.items, Unreserved t.1) :
    Dict.items <$> unflattenStateDict (rawOf out) = .ok o.saved ↔ ∀ s ∈ o.saved, Plain s.2 := by
  obtain ⟨parts, saved, whole, labels, unread, known⟩ := exists_parts collected unreserved
  rw [← saved, unflatten_parts whole labels unread, List.forall_mem_map]
  exact forall₂_congr fun p there => and_iff_left (known p there)

end

/-- A model of one parameter, and an optimizer with a tensor and a number. -/
abbrev twoObjects : Objects Empty where
  model := some (Dict.empty.set "w" (.tensor ⟨[2], .int8, [3, 4], rfl⟩))
  optimizer := some (.dict [(.int 0, .tensor ⟨[1], .int8, [7], rfl⟩), (.str "lr", .int 1)])
  scheduler := none
  scaler := none
  extra := .empty

abbrev twoTemplates : List (Value Empty × Bytes) :=
  [(.dict (flattenModel .empty [("w", .tensor ⟨[2], .int8, [3, 4], rfl⟩)]).1, [1]),
    ((flattenState "optimizer" 0 .empty
      (.dict [(.int 0, .tensor ⟨[1], .int8, [7], rfl⟩), (.str "lr", .int 1)] : Value Empty)).1, [2])]

theorem unflatten_allTensors_two : ∃ out, @allTensors _ (pickleOf twoTemplates) twoObjects = .ok out ∧
    Dict.items <$> @unflattenStateDict _ (pickleOf twoTemplates) (rawOf out) = .ok twoObjects.saved := by
  have lawful : @LawfulPickle Empty (pickleOf twoTemplates) :=
    pickleOf_lawful (by decide) (by simp [Library.Codec.Closed])
  have collected : ∃ out, @allTensors _ (pickleOf twoTemplates) twoObjects = .ok out := ⟨_, rfl⟩
  obtain ⟨out, collected⟩ := collected
  refine ⟨out, collected, (@unflatten_allTensors _ _ (pickleOf twoTemplates) lawful _ collected ?_).mpr ?_⟩
  · intro m model t there
    obtain rfl := Option.some.inj model
    obtain rfl : t = ("model/" ++ "w", ⟨[2], .int8, [3, 4], rfl⟩) := by
      simpa [parameters, Dict.set, Dict.empty, setItem, directDtypes] using there
    exact ⟨by decide, by decide⟩
  · simp [Objects.saved, Objects.states, dictOf, Dict.set, Dict.empty, setItem, Plain, PlainItems]

end CheckpointManager

end PyTorch
end Moonclip
