import Std.Data.ExtTreeMap.Lemmas
import Mathlib.Data.List.Nodup
import Mathlib.Data.List.Perm.Subperm

/-! Maps made from lists of bindings. Of two bindings of one key the last counts,
and a list that binds no key twice is read off as it stands. -/
namespace Library.Tables
open Std

variable {α β : Type} {cmp : α → α → Ordering} [TransCmp cmp] [LawfulEqCmp cmp] {k : α} {v : β}
  {bindings : List (α × β)}

theorem getElem?_foldl_insert [BEq α] [LawfulBEq α] (start : ExtTreeMap α β cmp) :
    (bindings.foldl (fun acc p => acc.insert p.1 p.2) start)[k]? =
      (bindings.reverse.lookup k).or start[k]? := by
  induction bindings generalizing start with
  | nil => simp
  | cons binding rest ih =>
    obtain ⟨key, value⟩ := binding
    rw [List.foldl_cons, ih, List.reverse_cons, List.lookup_append, Option.or_assoc,
      ExtTreeMap.getElem?_insert]
    by_cases same : k = key
    · subst same
      simp [ReflCmp.compare_self]
    · have other : cmp key k ≠ .eq := fun eq => same (LawfulEqCmp.eq_of_compare eq).symm
      have apart : (k == key) = false := beq_eq_false_iff_ne.mpr same
      simp [List.lookup_cons, other, apart]

/-- The last binding of a key counts. -/
theorem getElem?_ofList [BEq α] [LawfulBEq α] :
    (ExtTreeMap.ofList bindings cmp)[k]? = bindings.reverse.lookup k := by
  rw [ExtTreeMap.ofList_eq_foldl, getElem?_foldl_insert]
  simp

theorem mem_of_getElem?_ofList [DecidableEq α]
    (found : (ExtTreeMap.ofList bindings cmp)[k]? = some v) : (k, v) ∈ bindings := by
  rw [getElem?_ofList] at found
  obtain ⟨before, after, split, _⟩ := List.lookup_eq_some_iff.mp found
  rw [← List.mem_reverse, split]
  simp

theorem getElem?_ofList_of_mem (distinct : (bindings.map Prod.fst).Nodup) (bound : (k, v) ∈ bindings) :
    (ExtTreeMap.ofList bindings cmp)[k]? = some v := by
  refine ExtTreeMap.getElem?_ofList_of_mem ReflCmp.compare_self ?_ bound
  rw [List.Nodup, List.pairwise_map] at distinct
  exact distinct.imp fun apart same => apart (LawfulEqCmp.eq_of_compare same)

theorem getElem?_ofList_eq_some (distinct : (bindings.map Prod.fst).Nodup) :
    (ExtTreeMap.ofList bindings cmp)[k]? = some v ↔ (k, v) ∈ bindings := by
  classical
  exact ⟨mem_of_getElem?_ofList, getElem?_ofList_of_mem distinct⟩

theorem size_ofList (distinct : (bindings.map Prod.fst).Nodup) :
    (ExtTreeMap.ofList bindings cmp).size = bindings.length := by
  apply ExtTreeMap.size_ofList
  rw [List.Nodup, List.pairwise_map] at distinct
  exact distinct.imp fun apart same => apart (LawfulEqCmp.eq_of_compare same)

/-- A map's own bindings, none left out, make it again. -/
theorem ofList_eq [DecidableEq α] {m : ExtTreeMap α β cmp} (own : ∀ k v, (k, v) ∈ bindings → m[k]? = some v)
    (all : ∀ k v, m[k]? = some v → (k, v) ∈ bindings) : ExtTreeMap.ofList bindings cmp = m := by
  apply ExtTreeMap.ext_getElem?
  intro k
  cases found : (ExtTreeMap.ofList bindings cmp)[k]? with
  | some v => exact (own k v (mem_of_getElem?_ofList found)).symm
  | none =>
    cases there : m[k]? with
    | none => rfl
    | some v =>
      rw [getElem?_ofList, List.lookup_eq_none_iff] at found
      have apart := found (k, v) (List.mem_reverse.mpr (all k v there))
      simp at apart

omit [LawfulEqCmp cmp] in
theorem mem_of_getElem? {m : ExtTreeMap α β cmp} (found : m[k]? = some v) : k ∈ m := by
  rw [ExtTreeMap.mem_iff_isSome_getElem?, found]
  rfl

omit [LawfulEqCmp cmp] in
theorem exists_of_mem {m : ExtTreeMap α β cmp} (there : k ∈ m) : ∃ v, m[k]? = some v :=
  Option.isSome_iff_exists.mp (ExtTreeMap.mem_iff_isSome_getElem?.mp there)

/-- A map without one of another's keys, and with no key of its own, is smaller. -/
theorem size_lt {m m' : ExtTreeMap α β cmp} (within : ∀ k, k ∈ m' → k ∈ m) (there : k ∈ m) (gone : k ∉ m') :
    m'.size < m.size := by
  have once : (k :: m'.keys).Nodup := by
    rw [List.nodup_cons, ExtTreeMap.mem_keys]
    exact ⟨gone, ExtTreeMap.nodup_keys⟩
  have subset : k :: m'.keys ⊆ m.keys := by
    intro key listed
    rw [ExtTreeMap.mem_keys]
    rcases List.mem_cons.mp listed with rfl | other
    · exact there
    · exact within key (ExtTreeMap.mem_keys.mp other)
  have fewer := (List.subperm_of_subset once subset).length_le
  simp only [List.length_cons, ExtTreeMap.length_keys] at fewer
  omega

end Library.Tables
