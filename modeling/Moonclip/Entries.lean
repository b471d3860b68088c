import Moonclip.Loading

/-! How the entries of one rank read back: a tensor from its own bytes, an alias
from the bytes of the tensor it names. -/
namespace Moonclip
open Library.Outcome Library.Tables

/-- `t` holds the bytes that `e` stands for. -/
structure Holder (entries : List TensorEntry) (e t : TensorEntry) : Prop where
  listed : t ∈ entries
  own : t.storage ≠ .aliased
  named : t = e ∨ e.storage = .aliased ∧ e.aliasOf = some t.name

theorem eq_of_name {entries : List TensorEntry} {e t : TensorEntry}
    (distinct : (entries.map (·.name)).Nodup) (he : e ∈ entries) (ht : t ∈ entries)
    (same : e.name = t.name) : e = t :=
  List.inj_on_of_nodup_map distinct he ht same

theorem Holder.unique {entries : List TensorEntry} {e t u : TensorEntry}
    (distinct : (entries.map (·.name)).Nodup) (ht : Holder entries e t) (hu : Holder entries e u) :
    t = u := by
  rcases ht.named with rfl | ⟨aliased, target⟩
  · rcases hu.named with rfl | ⟨aliased, _⟩
    · rfl
    · exact absurd aliased ht.own
  · rcases hu.named with rfl | ⟨_, target'⟩
    · exact absurd aliased hu.own
    · exact eq_of_name distinct ht.listed hu.listed (by simpa [target] using target')

theorem getElem?_entriesByName {entries : List TensorEntry} {e : TensorEntry}
    (distinct : (entries.map (·.name)).Nodup) (listed : e ∈ entries) :
    (entriesByName entries)[e.name]? = some e :=
  getElem?_ofList_of_mem (by simpa [Function.comp_def] using distinct)
    (List.mem_map.mpr ⟨e, listed, rfl⟩)

namespace Coordinator

def isAlias (n : String) (e : TensorEntry) : Bool := decide (e.storage = .aliased ∧ e.name = n)

/-- Aliases of tensors already read all get their bytes, and nothing else moves. -/
theorem loadAliases_ok {out : TensorMap} {todo : List TensorEntry}
    (distinct : (todo.map (·.name)).Nodup)
    (targets : ∀ e ∈ todo, e.storage = .aliased → ∃ target data, e.aliasOf = some target ∧
      out[target]? = some data ∧ ∀ a ∈ todo, a.storage = .aliased → a.name ≠ target) :
    ∃ final, loadAliases out todo = .ok final ∧
      ∀ n : String, final[n]? = match todo.find? (isAlias n) with
        | some e => e.aliasOf.bind (out[·]?)
        | none => out[n]? := by
  induction todo generalizing out with
  | nil => exact ⟨out, rfl, fun _ => rfl⟩
  | cons e rest ih =>
    obtain ⟨fresh, distinct⟩ := List.nodup_cons.mp distinct
    by_cases kind : e.storage = .aliased
    · obtain ⟨target, data, named, found, apart⟩ := targets e (by simp) kind
      have kept : ∀ other : String, other ≠ e.name → (out.insert e.name data)[other]? = out[other]? := by
        intro other distinct
        simp [Std.ExtTreeMap.getElem?_insert, Ne.symm distinct]
      obtain ⟨final, loaded, spec⟩ := @ih (out.insert e.name data) distinct fun a ha aliased => by
        obtain ⟨target', data', named', found', apart'⟩ := targets a (by simp [ha]) aliased
        have other := apart' e (by simp) kind
        exact ⟨target', data', named', by rw [kept _ (Ne.symm other), found'],
          fun b hb => apart' b (by simp [hb])⟩
      refine ⟨final, by simp [loadAliases, kind, named, found, loaded], fun n => ?_⟩
      rw [spec n]
      by_cases this : e.name = n
      · subst this
        have nobody : rest.find? (isAlias e.name) = none := by
          rw [List.find?_eq_none]
          intro a ha matching
          simp only [isAlias, decide_eq_true_eq] at matching
          exact fresh (List.mem_map.mpr ⟨a, ha, matching.2⟩)
        simp [nobody, isAlias, kind, named, found]
      · have skip : isAlias n e = false := by simp [isAlias, this]
        simp only [List.find?_cons, skip]
        cases later : rest.find? (isAlias n) with
        | none => exact kept n (Ne.symm this)
        | some a =>
          have ha := List.mem_of_find?_eq_some later
          have aliased : a.storage = .aliased := by
            have matching := List.find?_some later
            simp only [isAlias, decide_eq_true_eq] at matching
            exact matching.1
          obtain ⟨target', _, named', _, apart'⟩ := targets a (by simp [ha]) aliased
          have other := apart' e (by simp) kind
          simp only [named', Option.bind_some]
          exact kept target' (Ne.symm other)
    · obtain ⟨final, loaded, spec⟩ := @ih out distinct fun a ha aliased => by
        obtain ⟨target', data', named', found', apart'⟩ := targets a (by simp [ha]) aliased
        exact ⟨target', data', named', found', fun b hb => apart' b (by simp [hb])⟩
      refine ⟨final, by simp [loadAliases, kind, loaded], fun n => ?_⟩
      have skip : isAlias n e = false := by simp [isAlias, kind]
      simp only [List.find?_cons, skip, spec n]

/-- Where every tensor of its own reads, and every alias has a tensor to share
with, the rank loads; what it loads is the bytes of the holders. -/
theorem loadEntries_ok {f : TensorEntry → Except MoonclipError Bytes} {entries : List TensorEntry}
    (distinct : (entries.map (·.name)).Nodup) (holders : ∀ e ∈ entries, ∃ t, Holder entries e t)
    (own : ∀ e ∈ entries, e.storage ≠ .aliased → ∃ data, f e = .ok data) :
    ∃ out, loadEntries f entries = .ok out ∧ ∀ (n : String) data, out[n]? = some data ↔
      ∃ e ∈ entries, e.name = n ∧ ∃ t, Holder entries e t ∧ f t = .ok data := by
  obtain ⟨g, reads⟩ : ∃ g : TensorEntry → Bytes, ∀ e ∈ entries, e.storage ≠ .aliased → f e = .ok (g e) := by
    refine ⟨fun e => (f e).toOption.getD [], fun e listed kind => ?_⟩
    obtain ⟨data, loaded⟩ := own e listed kind
    simp [loaded, Except.toOption]
  let mine := entries.filter (·.storage != .aliased)
  have mem_mine : ∀ e, e ∈ mine ↔ e ∈ entries ∧ e.storage ≠ .aliased := by
    intro e
    simp [mine]
  have pairs : (mine.mapM fun e => do
      let data ← f e
      return (e.name, data)) = .ok (mine.map fun e => (e.name, g e)) := by
    refine mapM_eq_ok.mpr (List.forall₂_map_right_iff.mpr (List.forall₂_same.mpr fun e he => ?_))
    rw [reads e ((mem_mine e).mp he).1 ((mem_mine e).mp he).2]
    rfl
  have keys : ((mine.map fun e => (e.name, g e)).map Prod.fst).Nodup := by
    rw [List.map_map]
    exact distinct.sublist ((List.filter_sublist).map _)
  have first : ∀ (n : String) data,
    (Std.ExtTreeMap.ofList (mine.map fun e => (e.name, g e)) : TensorMap)[n]? =
      some data ↔ ∃ e ∈ entries, e.storage ≠ .aliased ∧ e.name = n ∧ g e = data := by
    intro n data
    rw [getElem?_ofList_eq_some keys]
    simp [mem_mine, and_assoc]
  have shares : ∀ e ∈ entries, e.storage = .aliased →
      ∃ t, Holder entries e t ∧ e.aliasOf = some t.name := by
    intro e listed kind
    obtain ⟨t, holder⟩ := holders e listed
    rcases holder.named with rfl | ⟨_, named⟩
    · exact absurd kind holder.own
    · exact ⟨t, holder, named⟩
  obtain ⟨final, loaded, spec⟩ := loadAliases_ok distinct fun e listed kind => by
    obtain ⟨t, holder, named⟩ := shares e listed kind
    refine ⟨t.name, g t, named, (first _ _).mpr ⟨t, holder.listed, holder.own, rfl, rfl⟩, ?_⟩
    intro a ha aliased same
    exact holder.own (eq_of_name distinct ha holder.listed same ▸ aliased)
  refine ⟨final, ?_, fun n data => ?_⟩
  · simp only [loadEntries]
    rw [pairs]
    exact loaded
  · rw [spec n]
    cases shared : entries.find? (isAlias n) with
    | some e =>
      have listed := List.mem_of_find?_eq_some shared
      have matching := List.find?_some shared
      simp only [isAlias, decide_eq_true_eq] at matching
      obtain ⟨kind, rfl⟩ := matching
      obtain ⟨t, holder, named⟩ := shares e listed kind
      have held := (first t.name (g t)).mpr ⟨t, holder.listed, holder.own, rfl, rfl⟩
      simp only [named, Option.bind_some, held, Option.some.injEq]
      constructor
      · rintro rfl
        exact ⟨e, listed, rfl, t, holder, reads t holder.listed holder.own⟩
      · rintro ⟨e', listed', same, t', holder', read⟩
        obtain rfl := eq_of_name distinct listed' listed same
        obtain rfl := holder.unique distinct holder'
        simpa [reads t holder.listed holder.own] using read
    | none =>
      simp only [first]
      constructor
      · rintro ⟨e, listed, kind, rfl, rfl⟩
        exact ⟨e, listed, rfl, e, ⟨listed, kind, .inl rfl⟩, reads e listed kind⟩
      · rintro ⟨e, listed, rfl, t, holder, read⟩
        have kind : e.storage ≠ .aliased := fun kind => by
          simpa [isAlias, kind] using List.find?_eq_none.mp shared e listed
        obtain rfl : t = e := holder.named.resolve_right fun aliased => kind aliased.1
        exact ⟨t, listed, kind, rfl, by simpa [reads t listed kind] using read⟩

end Coordinator
end Moonclip
