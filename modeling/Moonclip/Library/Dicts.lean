import Mathlib.Data.List.Nodup
import Mathlib.Data.List.Basic

/-! Dictionaries that remember the order their keys came in: a key set again stays where
it was. Keys and values are arbitrary. -/
namespace Library.Dicts

/-- No key is bound twice. -/
structure Dict (κ β : Type) where
  items : List (κ × β)
  distinct : (items.map Prod.fst).Nodup

variable {κ β γ : Type} [DecidableEq κ] {k j : κ} {v w : β}

theorem lookup_cons {rest : List (κ × β)} :
    ((j, w) :: rest).lookup k = if k = j then some w else rest.lookup k := by
  by_cases same : k = j
  · subst same
    rw [List.lookup_cons_self, if_pos rfl]
  · rw [List.lookup_cons, beq_eq_false_iff_ne.mpr same, if_neg same]

def setItem (k : κ) (v : β) : List (κ × β) → List (κ × β)
  | [] => [(k, v)]
  | (j, w) :: rest => if j = k then (k, v) :: rest else (j, w) :: setItem k v rest

theorem keys_setItem {items : List (κ × β)} : (setItem k v items).map Prod.fst =
    if k ∈ items.map Prod.fst then items.map Prod.fst else items.map Prod.fst ++ [k] := by
  induction items with
  | nil => simp [setItem]
  | cons item rest ih =>
    obtain ⟨j, w⟩ := item
    by_cases same : j = k
    · simp [setItem, same]
    · rw [setItem, if_neg same, List.map_cons, ih]
      by_cases there : k ∈ rest.map Prod.fst
      · simp [there]
      · have out : k ∉ ((j, w) :: rest).map Prod.fst := by
          simp only [List.map_cons, List.mem_cons, not_or]
          exact ⟨Ne.symm same, there⟩
        rw [if_neg there, if_neg out]
        rfl

namespace Dict

def empty : Dict κ β := ⟨[], List.nodup_nil⟩

def get? (d : Dict κ β) (k : κ) : Option β := d.items.lookup k

def set (d : Dict κ β) (k : κ) (v : β) : Dict κ β where
  items := setItem k v d.items
  distinct := by
    rw [keys_setItem]
    split
    · exact d.distinct
    · rename_i new
      exact List.nodup_append.mpr ⟨d.distinct, List.nodup_singleton k, fun a there b last => by
        rw [List.mem_singleton.mp last]
        rintro rfl
        exact new there⟩

def map (f : β → γ) (d : Dict κ β) : Dict κ γ where
  items := d.items.map fun item => (item.1, f item.2)
  distinct := by
    rw [List.map_map]
    exact d.distinct

/-- Every binding of a list, the later over the earlier. -/
def update (d : Dict κ β) (bindings : List (κ × β)) : Dict κ β :=
  bindings.foldl (fun d b => d.set b.1 b.2) d

variable {d : Dict κ β} {bindings : List (κ × β)}

/-- A new key comes last. -/
theorem items_set_of_notMem (new : k ∉ d.items.map Prod.fst) : (d.set k v).items = d.items ++ [(k, v)] := by
  obtain ⟨items, distinct⟩ := d
  simp only [set] at new ⊢
  clear distinct
  induction items with
  | nil => rfl
  | cons item rest ih =>
    obtain ⟨i, w⟩ := item
    rw [List.map_cons, List.mem_cons, not_or] at new
    rw [setItem, if_neg (Ne.symm new.1), ih new.2]
    rfl

theorem items_update (distinct : (d.items.map Prod.fst ++ bindings.map Prod.fst).Nodup) :
    (d.update bindings).items = d.items ++ bindings := by
  induction bindings generalizing d with
  | nil => exact (List.append_nil _).symm
  | cons binding rest ih =>
    obtain ⟨k, v⟩ := binding
    have new : k ∉ d.items.map Prod.fst := by
      intro there
      exact List.disjoint_of_nodup_append distinct there (List.mem_cons_self ..)
    have grown := items_set_of_notMem new (v := v)
    rw [update, List.foldl_cons]
    refine (ih ?_).trans ?_
    · rw [grown, List.map_append]
      simpa using distinct
    · rw [grown, List.append_assoc]
      rfl

theorem get?_eq_none : d.get? k = none ↔ k ∉ d.items.map Prod.fst := by
  rw [get?, List.lookup_eq_none_iff]
  constructor
  · intro other there
    obtain ⟨item, listed, rfl⟩ := List.mem_map.mp there
    exact bne_iff_ne.mp (other item listed) rfl
  · intro out item there
    rw [bne_iff_ne]
    rintro rfl
    exact out (List.mem_map_of_mem there)

theorem get?_eq_some : d.get? k = some v ↔ (k, v) ∈ d.items := by
  obtain ⟨items, distinct⟩ := d
  simp only [get?]
  induction items with
  | nil => simp
  | cons item rest ih =>
    obtain ⟨i, w⟩ := item
    rw [List.map_cons, List.nodup_cons] at distinct
    rw [lookup_cons, List.mem_cons, Prod.mk.injEq]
    by_cases same : k = i
    · subst same
      have out : (k, v) ∉ rest := fun there => distinct.1 (List.mem_map.mpr ⟨(k, v), there, rfl⟩)
      simp [out, eq_comm]
    · simp [same, ih distinct.2]

end Dict
end Library.Dicts
