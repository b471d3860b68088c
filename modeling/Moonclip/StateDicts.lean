import Moonclip.Basic
import Moonclip.Library.Dicts
import Moonclip.Library.Outcome

/-! What the Python front end does to a state dict before it is saved: every tensor is
taken out under its path, the rest is pickled, and a loaded map of names to bytes is put
together again. -/
namespace Moonclip
open Library.Dicts Library.Outcome

namespace PyTorch

/-- The dtypes of torch. -/
inductive Dtype
  | float32 | float16 | bfloat16 | float64 | int32 | int64 | int16 | int8 | uint8 | bool
  | complex64 | complex128 | uint16 | uint32 | uint64 | complex32
  | float8E4m3fn | float8E4m3fnuz | float8E5m2 | float8E5m2fnuz | float8E8m0fnu
  | qint8 | quint8 | qint32
  deriving DecidableEq

namespace Dtype

/-- As torch prints it, without its `torch.`. -/
def name : Dtype → String
  | float32 => "float32"
  | float16 => "float16"
  | bfloat16 => "bfloat16"
  | float64 => "float64"
  | int32 => "int32"
  | int64 => "int64"
  | int16 => "int16"
  | int8 => "int8"
  | uint8 => "uint8"
  | bool => "bool"
  | complex64 => "complex64"
  | complex128 => "complex128"
  | uint16 => "uint16"
  | uint32 => "uint32"
  | uint64 => "uint64"
  | complex32 => "complex32"
  | float8E4m3fn => "float8_e4m3fn"
  | float8E4m3fnuz => "float8_e4m3fnuz"
  | float8E5m2 => "float8_e5m2"
  | float8E5m2fnuz => "float8_e5m2fnuz"
  | float8E8m0fnu => "float8_e8m0fnu"
  | qint8 => "qint8"
  | quint8 => "quint8"
  | qint32 => "qint32"

def itemsize : Dtype → Nat
  | int8 | uint8 | bool | float8E4m3fn | float8E4m3fnuz | float8E5m2 | float8E5m2fnuz | float8E8m0fnu
  | qint8 | quint8 => 1
  | float16 | bfloat16 | int16 | uint16 => 2
  | float32 | int32 | uint32 | complex32 | qint32 => 4
  | float64 | int64 | uint64 | complex64 => 8
  | complex128 => 16

end Dtype

/-- The dtypes a tensor can be rebuilt with. -/
def dtypeMap : List (String × Dtype) :=
  [("float32", .float32), ("float16", .float16), ("bfloat16", .bfloat16), ("float64", .float64),
    ("int32", .int32), ("int64", .int64), ("int16", .int16), ("int8", .int8), ("uint8", .uint8),
    ("bool", .bool), ("complex64", .complex64), ("complex128", .complex128), ("uint16", .uint16)]

/-- Each of them is found again by its name. -/
theorem lookup_name (d : Dtype) : dtypeMap.lookup d.name = some d ↔ d ∈ dtypeMap.map Prod.snd := by
  cases d <;> decide

/-- A tensor on the host: as many bytes as its shape has elements. -/
@[ext] structure Tensor where
  shape : List Nat
  dtype : Dtype
  bytes : Bytes
  sized : bytes.length = shape.prod * dtype.itemsize
  deriving DecidableEq

inductive Key
  | str (s : String)
  | int (n : Int)
  deriving DecidableEq

/-- As an f-string prints it. -/
def Key.text : Key → String
  | str s => s
  | int n => toString n

/-- What a state dict is made of; `other` is any other object. -/
inductive Value (α : Type)
  | none
  | str (s : String)
  | int (n : Int)
  | other (a : α)
  | tensor (t : Tensor)
  | dict (items : List (Key × Value α))
  | list (items : List (Value α))
  | tuple (items : List (Value α))

mutual

def Value.same [DecidableEq α] : Value α → Value α → Bool
  | .none, .none => true
  | .str s, .str s' => s == s'
  | .int n, .int n' => n == n'
  | .other a, .other a' => a == a'
  | .tensor t, .tensor t' => t == t'
  | .dict items, .dict items' => sameItems items items'
  | .list items, .list items' => sameElements items items'
  | .tuple items, .tuple items' => sameElements items items'
  | _, _ => false

def Value.sameItems [DecidableEq α] : List (Key × Value α) → List (Key × Value α) → Bool
  | [], [] => true
  | (k, v) :: rest, (k', v') :: rest' => k == k' && Value.same v v' && Value.sameItems rest rest'
  | _, _ => false

def Value.sameElements [DecidableEq α] : List (Value α) → List (Value α) → Bool
  | [], [] => true
  | v :: rest, v' :: rest' => Value.same v v' && Value.sameElements rest rest'
  | _, _ => false

end

mutual

theorem Value.same_iff [DecidableEq α] (v v' : Value α) : Value.same v v' = true ↔ v = v' := by
  cases v with
  | dict items => cases v' <;> simp [Value.same, Value.sameItems_iff items]
  | list items => cases v' <;> simp [Value.same, Value.sameElements_iff items]
  | tuple items => cases v' <;> simp [Value.same, Value.sameElements_iff items]
  | none | str | int | other | tensor => cases v' <;> simp [Value.same]

theorem Value.sameItems_iff [DecidableEq α] (items items' : List (Key × Value α)) :
    Value.sameItems items items' = true ↔ items = items' := by
  cases items with
  | nil => cases items' <;> simp [Value.sameItems]
  | cons item rest =>
    cases items' with
    | nil => simp [Value.sameItems]
    | cons item' rest' =>
      obtain ⟨k, v⟩ := item
      obtain ⟨k', v'⟩ := item'
      simp [Value.sameItems, Value.same_iff v, Value.sameItems_iff rest]

theorem Value.sameElements_iff [DecidableEq α] (items items' : List (Value α)) :
    Value.sameElements items items' = true ↔ items = items' := by
  cases items with
  | nil => cases items' <;> simp [Value.sameElements]
  | cons v rest => cases items' <;> simp [Value.sameElements, Value.same_iff v, Value.sameElements_iff rest]

end

instance [DecidableEq α] : DecidableEq (Value α) := fun v v' => decidable_of_iff _ (Value.same_iff v v')

/-- What is raised: by a dict without a key, for an object with no hash, for a dtype that
is not in the map, by torch, and by pickle on the way out and in. -/
inductive PyError (α : Type)
  | keyError (key : String)
  | unhashable
  | unknownDtype (dtype : Value α)
  | torch
  | pickling
  | unpickling

/-- What Python and torch do with objects: pickling, hashing, and the tensor `torch.empty`
makes, whose contents nothing is known of. -/
class Python (α : Type) where
  dumps : Value α → Except (PyError α) Bytes
  loads : Bytes → Except (PyError α) (Value α)
  hashable : α → Bool
  empty (shape : List Nat) (dtype : Dtype) : { t : Tensor // t.shape = shape ∧ t.dtype = dtype }

/-- What was pickled is unpickled. -/
class LawfulPickle (α : Type) [Python α] : Prop where
  loads_dumps {v : Value α} {text : Bytes} : Python.dumps v = .ok text → Python.loads text = .ok v

variable {α : Type}

/-- Shape, dtype and bytes of each tensor, by its name. -/
abbrev TensorsOut := Dict String (List Nat × String × Bytes)

def Tensor.entry (t : Tensor) : List Nat × String × Bytes := (t.shape, t.dtype.name, t.bytes)

/-- What stands in the place of a tensor. -/
def Tensor.placeholder (t : Tensor) (path : String) : Value α :=
  .dict [(.str "__tensor__", .str path), (.str "shape", .list (t.shape.map fun n : Nat => .int n)),
    (.str "dtype", .str t.dtype.name)]

mutual

def flattenAndExtractTensors (path : String) (out : TensorsOut) : Value α → Value α × TensorsOut
  | .tensor t => (t.placeholder path, out.set path t.entry)
  | .dict items =>
    let (items, out) := flattenItems path out items
    (.dict items, out)
  | .list items =>
    let (items, out) := flattenElements path 0 out items
    (.list items, out)
  | .tuple items =>
    let (items, out) := flattenElements path 0 out items
    (.tuple items, out)
  | .none => (.none, out)
  | .str s => (.str s, out)
  | .int n => (.int n, out)
  | .other a => (.other a, out)

def flattenItems (path : String) (out : TensorsOut) : List (Key × Value α) → List (Key × Value α) × TensorsOut
  | [] => ([], out)
  | (k, v) :: rest =>
    let (v, out) := flattenAndExtractTensors (path ++ "/" ++ k.text) out v
    let (rest, out) := flattenItems path out rest
    ((k, v) :: rest, out)

def flattenElements (path : String) (idx : Nat) (out : TensorsOut) :
    List (Value α) → List (Value α) × TensorsOut
  | [] => ([], out)
  | v :: rest =>
    let (v, out) := flattenAndExtractTensors (path ++ "/" ++ (Key.int idx).text) out v
    let (rest, out) := flattenElements path (idx + 1) out rest
    (v :: rest, out)

end

/-- The tensors of a state dict by name, and its template; the template is saved with them. -/
def flattenStateDict [Python α] (state : Value α) (label : String) :
    Except (PyError α) (TensorsOut × Value α) := do
  let (metadata, out) := flattenAndExtractTensors label .empty state
  return (out.set (label ++ "._metadata") ([], "uint8", ← Python.dumps metadata), metadata)

/-- The bytes of everything that was flattened, as a load returns them. -/
def rawOf (out : TensorsOut) : Dict String Bytes := out.map fun entry => entry.2.2

section
variable [Python α]

mutual

/-- Whether Python can look the object up in a dict. -/
def hashable : Value α → Bool
  | .dict _ | .list _ => false
  | .tuple items => allHashable items
  | .other a => Python.hashable a
  | .none | .str _ | .int _ | .tensor _ => true

def allHashable : List (Value α) → Bool
  | [] => true
  | v :: rest => hashable v && allHashable rest

end

/-- `_DTYPE_MAP.get`, and what is raised when there is nothing. -/
def dtypeOf (dtype : Value α) : Except (PyError α) Dtype :=
  match dtype with
  | .str s => match dtypeMap.lookup s with
    | some d => .ok d
    | none => .error (.unknownDtype dtype)
  | _ => if hashable dtype then .error (.unknownDtype dtype) else .error .unhashable

def int? : Value α → Option Int
  | .int n => some n
  | _ => none

/-- The sizes a shape lists. -/
def sizes : Value α → Option (List Int)
  | .int n => some [n]
  | .list items | .tuple items => items.mapM int?
  | _ => none

/-- The dimensions so many elements are laid out in; one of them may be left to torch. -/
def resolved (count : Nat) (dims : List Int) : Option (List Nat) :=
  if dims.all (0 ≤ ·) then some (dims.map Int.toNat)
  else if dims.all (-1 ≤ ·) ∧ dims.count (-1) = 1 then
    let others := ((dims.filter (0 ≤ ·)).map Int.toNat).prod
    if others ≠ 0 ∧ count % others = 0 then
      some (dims.map fun d => if 0 ≤ d then d.toNat else count / others)
    else none
  else none

def tensorFromRaw (shape dtype : Value α) (raw : Bytes) : Except (PyError α) Tensor := do
  let d ← dtypeOf dtype
  if raw = [] then
    match (sizes shape).filter (·.all (0 ≤ ·)) with
    | some dims => return (Python.empty α (dims.map Int.toNat) d).val
    | none => throw .torch
  else if raw.length % d.itemsize ≠ 0 then throw .torch
  else match (sizes shape).bind (resolved (raw.length / d.itemsize)) with
    | some dims =>
      if sized : raw.length = dims.prod * d.itemsize then return ⟨dims, d, raw, sized⟩ else throw .torch
    | none => throw .torch

def item (items : List (Key × Value α)) (key : String) : Except (PyError α) (Value α) :=
  match items.lookup (.str key) with
  | some v => .ok v
  | none => .error (.keyError key)

/-- A dict with the key of a placeholder. -/
def rebuild (raw : Dict String Bytes) (items : List (Key × Value α)) (key : Value α) :
    Except (PyError α) (Value α) :=
  match key with
  | .str name => match raw.get? name with
    | none => .ok .none
    | some data => do
      let shape ← item items "shape"
      let dtype ← item items "dtype"
      return .tensor (← tensorFromRaw shape dtype data)
  | _ => if hashable key then .ok .none else .error .unhashable

mutual

def reconstructFromTensors (raw : Dict String Bytes) : Value α → Except (PyError α) (Value α)
  | .dict items =>
    match items.lookup (.str "__tensor__") with
    | some key => rebuild raw items key
    | none => do return .dict (← reconstructItems raw items)
  | .list items => do return .list (← reconstructElements raw items)
  | .tuple items => do return .tuple (← reconstructElements raw items)
  | .tensor t => .ok (.tensor t)
  | .none => .ok .none
  | .str s => .ok (.str s)
  | .int n => .ok (.int n)
  | .other a => .ok (.other a)

def reconstructItems (raw : Dict String Bytes) :
    List (Key × Value α) → Except (PyError α) (List (Key × Value α))
  | [] => .ok []
  | (k, v) :: rest => do
    let v ← reconstructFromTensors raw v
    let rest ← reconstructItems raw rest
    return (k, v) :: rest

def reconstructElements (raw : Dict String Bytes) : List (Value α) → Except (PyError α) (List (Value α))
  | [] => .ok []
  | v :: rest => do
    let v ← reconstructFromTensors raw v
    let rest ← reconstructElements raw rest
    return v :: rest

end

/-- What a key is without its ending. -/
def stem (ending key : String) : Option String :=
  if ending.toList <:+ key.toList then
    some (String.ofList (key.toList.take (key.toList.length - ending.toList.length)))
  else none

/-- One of the two loops of `unflatten_state_dict`: what is read of the entries whose names
end so, each under the rest of its name. -/
def gather (ending : String) (skips : Bool) (read : Bytes → Except (PyError α) (Value α)) :
    List (String × Bytes) → Dict String (Value α) → Except (PyError α) (Dict String (Value α))
  | [], result => .ok result
  | (key, value) :: rest, result =>
    match stem ending key with
    | none => gather ending skips read rest result
    | some label =>
      if skips ∧ (result.get? label).isSome then gather ending skips read rest result
      else do gather ending skips read rest (result.set label (← read value))

def unflattenStateDict (raw : Dict String Bytes) : Except (PyError α) (Dict String (Value α)) := do
  let result ← gather "._blob" false Python.loads raw.items .empty
  gather "._metadata" true (fun value => do reconstructFromTensors raw (← Python.loads value))
    raw.items result

end

/-- The position of a tensor in a state dict, as its path has it. -/
def spelled : List Key → String
  | [] => ""
  | k :: ks => "/" ++ k.text ++ spelled ks

mutual

/-- Where the tensors of a state dict are; an element of a sequence is at its index. -/
def positions : Value α → List (List Key × Tensor)
  | .tensor t => [([], t)]
  | .dict items => positionsOfItems items
  | .list items | .tuple items => positionsOfElements 0 items
  | .none | .str _ | .int _ | .other _ => []

def positionsOfItems : List (Key × Value α) → List (List Key × Tensor)
  | [] => []
  | (k, v) :: rest => (positions v).map (fun p => (k :: p.1, p.2)) ++ positionsOfItems rest

def positionsOfElements (idx : Nat) : List (Value α) → List (List Key × Tensor)
  | [] => []
  | v :: rest => (positions v).map (fun p => (.int idx :: p.1, p.2)) ++ positionsOfElements (idx + 1) rest

end

mutual

/-- No dict in it has the key that marks a placeholder. -/
def Plain : Value α → Prop
  | .dict items => .str "__tensor__" ∉ items.map Prod.fst ∧ PlainItems items
  | .list items | .tuple items => PlainElements items
  | .tensor _ | .none | .str _ | .int _ | .other _ => True

def PlainItems : List (Key × Value α) → Prop
  | [] => True
  | (_, v) :: rest => Plain v ∧ PlainItems rest

def PlainElements : List (Value α) → Prop
  | [] => True
  | v :: rest => Plain v ∧ PlainElements rest

end

/-- Under which name each tensor is saved. -/
def named (path : String) (ps : List (List Key × Tensor)) : List (String × Tensor) :=
  ps.map fun p => (path ++ spelled p.1, p.2)

variable {path : String} {out : TensorsOut}

theorem named_cons {k : Key} {ps : List (List Key × Tensor)} :
    named path (ps.map fun p => (k :: p.1, p.2)) = named (path ++ "/" ++ k.text) ps := by
  simp [named, spelled, String.append_assoc]

theorem named_append {ps qs : List (List Key × Tensor)} :
    named path (ps ++ qs) = named path ps ++ named path qs :=
  List.map_append

/-- What has been put in for so many tensors. -/
def TensorsOut.taking (out : TensorsOut) (ts : List (String × Tensor)) : TensorsOut :=
  out.update (ts.map fun t => (t.1, t.2.entry))

theorem TensorsOut.taking_append {ts us : List (String × Tensor)} :
    out.taking (ts ++ us) = (out.taking ts).taking us := by
  simp [TensorsOut.taking, Dict.update]

mutual

/-- Each tensor is put in under its path, in order. -/
theorem flatten_out (v : Value α) (path : String) (out : TensorsOut) :
    (flattenAndExtractTensors path out v).2 = out.taking (named path (positions v)) := by
  cases v with
  | tensor t =>
    simp [flattenAndExtractTensors, positions, named, spelled, TensorsOut.taking, Dict.update]
  | dict items => exact flattenItems_out items path out
  | list items => exact flattenElements_out items path 0 out
  | tuple items => exact flattenElements_out items path 0 out
  | none => rfl
  | str s => rfl
  | int n => rfl
  | other a => rfl

theorem flattenItems_out (items : List (Key × Value α)) (path : String) (out : TensorsOut) :
    (flattenItems path out items).2 = out.taking (named path (positionsOfItems items)) := by
  cases items with
  | nil => rfl
  | cons item rest =>
    obtain ⟨k, v⟩ := item
    rw [positionsOfItems, named_append, TensorsOut.taking_append, named_cons, ← flatten_out v, ←
      flattenItems_out rest]
    rfl

theorem flattenElements_out (items : List (Value α)) (path : String) (idx : Nat) (out : TensorsOut) :
    (flattenElements path idx out items).2 = out.taking (named path (positionsOfElements idx items)) := by
  cases items with
  | nil => rfl
  | cons v rest =>
    rw [positionsOfElements, named_append, TensorsOut.taking_append, named_cons, ← flatten_out v,
      ← flattenElements_out rest]
    rfl

end

mutual

/-- A value and its template, with the tensors the template names; a tensor may also stay
in it. -/
inductive Template : Value α → Value α → List (String × Tensor) → Prop
  | named (t : Tensor) (name : String) : Template (.tensor t) (t.placeholder name) [(name, t)]
  | kept (t : Tensor) : Template (.tensor t) (.tensor t) []
  | dict (parts : TemplateItems items items' ts) : Template (.dict items) (.dict items') ts
  | list (parts : TemplateElements items items' ts) : Template (.list items) (.list items') ts
  | tuple (parts : TemplateElements items items' ts) : Template (.tuple items) (.tuple items') ts
  | none : Template .none .none []
  | str (s : String) : Template (.str s) (.str s) []
  | int (n : Int) : Template (.int n) (.int n) []
  | other (a : α) : Template (.other a) (.other a) []

inductive TemplateItems : List (Key × Value α) → List (Key × Value α) → List (String × Tensor) → Prop
  | nil : TemplateItems [] [] []
  | cons (k : Key) (first : Template v v' ts) (others : TemplateItems rest rest' us) :
      TemplateItems ((k, v) :: rest) ((k, v') :: rest') (ts ++ us)

inductive TemplateElements : List (Value α) → List (Value α) → List (String × Tensor) → Prop
  | nil : TemplateElements [] [] []
  | cons (first : Template v v' ts) (others : TemplateElements rest rest' us) :
      TemplateElements (v :: rest) (v' :: rest') (ts ++ us)

end

theorem TemplateItems.keys {items items' : List (Key × Value α)} {ts : List (String × Tensor)}
    (parts : TemplateItems items items' ts) : items'.map Prod.fst = items.map Prod.fst := by
  induction items generalizing items' ts with
  | nil =>
    cases parts
    rfl
  | cons item rest ih =>
    cases parts with
    | cons k first others => exact congrArg (k :: ·) (ih others)

mutual

theorem flatten_template (v : Value α) (path : String) (out : TensorsOut) :
    Template v (flattenAndExtractTensors path out v).1 (named path (positions v)) := by
  cases v with
  | tensor t =>
    have here : named path (positions (.tensor t : Value α)) = [(path, t)] := by
      simp [positions, named, spelled]
    rw [here]
    exact .named t path
  | dict items => exact .dict (flattenItems_template items path out)
  | list items => exact .list (flattenElements_template items path 0 out)
  | tuple items => exact .tuple (flattenElements_template items path 0 out)
  | none => exact .none
  | str s => exact .str s
  | int n => exact .int n
  | other a => exact .other a

theorem flattenItems_template (items : List (Key × Value α)) (path : String) (out : TensorsOut) :
    TemplateItems items (flattenItems path out items).1 (named path (positionsOfItems items)) := by
  cases items with
  | nil => exact .nil
  | cons item rest =>
    obtain ⟨k, v⟩ := item
    rw [positionsOfItems, named_append, named_cons]
    exact .cons k (flatten_template v _ _) (flattenItems_template rest _ _)

theorem flattenElements_template (items : List (Value α)) (path : String) (idx : Nat) (out : TensorsOut) :
    TemplateElements items (flattenElements path idx out items).1
      (named path (positionsOfElements idx items)) := by
  cases items with
  | nil => exact .nil
  | cons v rest =>
    rw [positionsOfElements, named_append, named_cons]
    exact .cons (flatten_template v _ _) (flattenElements_template rest _ _ _)

end

theorem Tensor.eq_of_empty {t u : Tensor} (shape : t.shape = u.shape) (dtype : t.dtype = u.dtype)
    (nothing : u.bytes = []) : t = u := by
  have none : t.bytes.length = u.bytes.length := by
    rw [t.sized, u.sized, shape, dtype]
  apply Tensor.ext shape dtype
  rw [nothing] at none ⊢
  exact List.length_eq_zero_iff.mp none

theorem mapM_int (dims : List Nat) :
    (dims.map fun n : Nat => (Value.int n : Value α)).mapM int? = some (dims.map Int.ofNat) := by
  induction dims with
  | nil => rfl
  | cons n dims ih =>
    rw [List.map_cons, List.mapM_cons, ih]
    rfl

theorem all_ofNat (dims : List Nat) : (dims.map Int.ofNat).all (0 ≤ ·) = true := by
  simp

theorem toNat_ofNat (dims : List Nat) : (dims.map Int.ofNat).map Int.toNat = dims := by
  rw [List.map_map]
  exact List.map_id dims

section
variable [Python α] {raw : Dict String Bytes}

/-- A tensor comes back from its own placeholder and bytes. -/
theorem tensorFromRaw_placeholder (t : Tensor) (known : t.dtype ∈ dtypeMap.map Prod.snd) :
    tensorFromRaw (.list (t.shape.map fun n : Nat => .int n) : Value α) (.str t.dtype.name)
      t.bytes = .ok t := by
  have listed : sizes (.list (t.shape.map fun n : Nat => .int n) : Value α) =
    some (t.shape.map Int.ofNat) := mapM_int _
  have dtype : dtypeOf (.str t.dtype.name : Value α) = .ok t.dtype := by
    rw [dtypeOf, (lookup_name t.dtype).mpr known]
  have whole : t.bytes.length % t.dtype.itemsize = 0 := by
    rw [t.sized, Nat.mul_mod_left]
  have dims : resolved (t.bytes.length / t.dtype.itemsize) (t.shape.map Int.ofNat) = some t.shape := by
    rw [resolved, if_pos (all_ofNat _), toNat_ofNat]
  rw [tensorFromRaw, dtype]
  simp only [bind, Except.bind, listed, Option.filter_some, all_ofNat, if_true, whole, Option.bind_some, dims]
  by_cases nothing : t.bytes = []
  · rw [if_pos nothing]
    obtain ⟨shape, dtype⟩ := (Python.empty α ((t.shape.map Int.ofNat).map Int.toNat) t.dtype).property
    exact congrArg Except.ok (Tensor.eq_of_empty (shape.trans (toNat_ofNat t.shape)) dtype nothing)
  · rw [if_neg nothing, if_neg (by simp), dif_pos t.sized]
    rfl

/-- No placeholder becomes a dict. -/
theorem rebuild_ne_dict {items items' : List (Key × Value α)} {key : Value α} :
    rebuild raw items key ≠ .ok (.dict items') := by
  unfold rebuild
  split
  · split
    · nofun
    · simp
  · split
    · nofun
    · nofun

/-- Every tensor is of a dtype that can be rebuilt. -/
def Known (ts : List (String × Tensor)) : Prop := ∀ t ∈ ts, t.2.dtype ∈ dtypeMap.map Prod.snd

/-- The tensors a template names are at hand, each under its own name. -/
def Held (raw : Dict String Bytes) (ts : List (String × Tensor)) : Prop :=
  ∀ t ∈ ts, raw.get? t.1 = some t.2.bytes

theorem known_append {ts us : List (String × Tensor)} : Known (ts ++ us) ↔ Known ts ∧ Known us :=
  List.forall_mem_append

theorem held_append {ts us : List (String × Tensor)} : Held raw (ts ++ us) ↔ Held raw ts ∧ Held raw us :=
  List.forall_mem_append

theorem known_of_dtypeOf {d d' : Dtype} (read : dtypeOf (.str d.name : Value α) = .ok d') :
    d ∈ dtypeMap.map Prod.snd := by
  rw [dtypeOf] at read
  cases known : dtypeMap.lookup d.name with
  | none =>
    rw [known] at read
    contradiction
  | some d'' =>
    revert known
    cases d <;> decide +revert

/-- A placeholder becomes its tensor, where the dtype is known. -/
theorem rebuild_placeholder {t : Tensor} {name : String} (held : raw.get? name = some t.bytes) :
    reconstructFromTensors raw (t.placeholder name : Value α) = .ok (.tensor t) ↔
      t.dtype ∈ dtypeMap.map Prod.snd := by
  have rebuilt : reconstructFromTensors raw (t.placeholder name : Value α) =
      (.tensor <$> tensorFromRaw (.list (t.shape.map fun n : Nat => .int n))
        (.str t.dtype.name) t.bytes) := by
    simp only [Tensor.placeholder, reconstructFromTensors, List.lookup_cons_self, rebuild, held]
    simp [item, Library.Dicts.lookup_cons, Functor.map, Except.map, bind, Except.bind, pure, Except.pure]
  rw [rebuilt]
  constructor
  · intro back
    obtain ⟨t', built, -⟩ := map_eq_ok.mp back
    rw [tensorFromRaw, bind_eq_ok] at built
    obtain ⟨d, read, -⟩ := built
    exact known_of_dtypeOf read
  · intro known
    rw [tensorFromRaw_placeholder t known]
    rfl

mutual

/-- With its tensors at hand a template becomes what it was made of, unless a dict has the
mark of a placeholder or a dtype is not known; and then it does not. -/
theorem reconstruct_template (v : Value α) {v' : Value α} {ts : List (String × Tensor)}
    (made : Template v v' ts)
    (held : Held raw ts) : reconstructFromTensors raw v' = .ok v ↔ Plain v ∧ Known ts := by
  cases v with
  | tensor t =>
    cases made with
    | named _ name =>
      rw [rebuild_placeholder (held (name, t) (List.mem_singleton_self _))]
      simp [Plain, Known]
    | kept => simp [reconstructFromTensors, Plain, Known]
  | dict items =>
    cases made with
    | @dict _ items' _ parts =>
      rw [reconstructFromTensors, Plain]
      by_cases marked : .str "__tensor__" ∈ items.map Prod.fst
      · rw [← parts.keys] at marked
        obtain ⟨⟨k, key⟩, there, rfl⟩ := List.mem_map.mp marked
        cases found : items'.lookup (.str "__tensor__") with
        | none => exact absurd rfl (bne_iff_ne.mp (List.lookup_eq_none_iff.mp found _ there))
        | some key' =>
          rw [parts.keys] at marked
          exact iff_of_false rebuild_ne_dict fun plain => plain.1.1 marked
      · have unmarked : items'.lookup (.str "__tensor__") = none := by
          rw [List.lookup_eq_none_iff]
          intro kv there
          rw [bne_iff_ne]
          intro same
          apply marked
          rw [← parts.keys, same]
          exact List.mem_map_of_mem there
        rw [unmarked]
        simp only [bind_eq_ok, pure_eq_ok, Value.dict.injEq, exists_eq_right, marked, not_false_iff, true_and]
        exact reconstructItems_template items parts held
  | list items =>
    cases made with
    | list parts =>
      rw [reconstructFromTensors, Plain]
      simp only [bind_eq_ok, pure_eq_ok, Value.list.injEq, exists_eq_right]
      exact reconstructElements_template items parts held
  | tuple items =>
    cases made with
    | tuple parts =>
      rw [reconstructFromTensors, Plain]
      simp only [bind_eq_ok, pure_eq_ok, Value.tuple.injEq, exists_eq_right]
      exact reconstructElements_template items parts held
  | none =>
    cases made
    simp [reconstructFromTensors, Plain, Known]
  | str s =>
    cases made
    simp [reconstructFromTensors, Plain, Known]
  | int n =>
    cases made
    simp [reconstructFromTensors, Plain, Known]
  | other a =>
    cases made
    simp [reconstructFromTensors, Plain, Known]

theorem reconstructItems_template (items : List (Key × Value α)) {items' : List (Key × Value α)}
    {ts : List (String × Tensor)} (made : TemplateItems items items' ts) (held : Held raw ts) :
    reconstructItems raw items' = .ok items ↔ PlainItems items ∧ Known ts := by
  cases items with
  | nil =>
    cases made
    simp [reconstructItems, PlainItems, Known]
  | cons item rest =>
    cases made with
    | cons k first others =>
      rw [held_append] at held
      simp only [reconstructItems, bind_eq_ok, pure_eq_ok, List.cons.injEq, Prod.mk.injEq,
        true_and, PlainItems,
        known_append]
      rw [and_and_and_comm, ← reconstruct_template _ first held.1, ←
        reconstructItems_template rest others held.2]
      constructor
      · rintro ⟨_, one, _, more, rfl, rfl⟩
        exact ⟨one, more⟩
      · rintro ⟨one, more⟩
        exact ⟨_, one, _, more, rfl, rfl⟩

theorem reconstructElements_template (items : List (Value α)) {items' : List (Value α)}
    {ts : List (String × Tensor)} (made : TemplateElements items items' ts) (held : Held raw ts) :
    reconstructElements raw items' = .ok items ↔ PlainElements items ∧ Known ts := by
  cases items with
  | nil =>
    cases made
    simp [reconstructElements, PlainElements, Known]
  | cons v rest =>
    cases made with
    | cons first others =>
      rw [held_append] at held
      simp only [reconstructElements, bind_eq_ok, pure_eq_ok, List.cons.injEq, PlainElements, known_append]
      rw [and_and_and_comm, ← reconstruct_template _ first held.1, ←
        reconstructElements_template rest others held.2]
      constructor
      · rintro ⟨_, one, _, more, rfl, rfl⟩
        exact ⟨one, more⟩
      · rintro ⟨one, more⟩
        exact ⟨_, one, _, more, rfl, rfl⟩

end

end

end PyTorch
end Moonclip
