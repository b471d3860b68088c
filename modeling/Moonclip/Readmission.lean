import Moonclip.Library.Precedence
import Moonclip.NewestKept
import Moonclip.Runs

/-! What recovery makes of orphans: which come back, and which are deleted. -/
namespace Moonclip
open Library.Codec Library.Effect Library.Files Library.Outcome Library.Precedence

namespace Recovery

section
variable [SerdeJson] {files : Files} {m : Manifest} {dir : Directory} {s t b : Snapshot}

/-- The packs of a directory that all describe themselves as one snapshot. -/
structure Describes (files : Files) (dir : Directory) (s : Snapshot) (descriptors : List PackDescriptor) :
    Prop where
  packs : List.Forall₂ (fun p d => descriptorOf files dir p = some d)
    ((filesIn files dir).filter isPack) descriptors
  first : ∃ d rest, descriptors = d :: rest ∧ d.worldSize = s.ranks.size ∧ s = {
    id := d.snapshotId
    step := d.step
    createdAt := d.createdAt
    ranks := .ofList (descriptors.map fun d => (d.rank.rank, d.rank))
    baseSnapshotId := d.baseSnapshotId
    metadata := d.metadata
    compression := d.compression
    finalized := true
    pinned := false }

theorem rebuildFromPacks_eq_some : rebuildFromPacks files dir (filesIn files dir) = some s ↔
    ∃ descriptors, Describes files dir s descriptors := by
  simp only [rebuildFromPacks, Option.bind_eq_bind, Option.bind_eq_some_iff, mapM_eq_some]
  constructor
  · rintro ⟨descriptors, packs, d, head, made⟩
    obtain ⟨rest, rfl⟩ := List.head?_eq_some_iff.mp head
    split at made
    · contradiction
    · rename_i size
      obtain rfl := Option.some.inj made
      exact ⟨d :: rest, packs, d, rest, rfl, (not_not.mp size).symm, rfl⟩
  · rintro ⟨_, packs, d, rest, rfl, size, made⟩
    refine ⟨d :: rest, packs, d, rfl, ?_⟩
    rw [made] at size ⊢
    rw [if_neg (not_not.mpr size.symm)]

theorem descriptorOf_dir {p : Path} {d : PackDescriptor} (described : descriptorOf files dir p = some d) :
    dir = .uuid d.snapshotId := by
  simp only [descriptorOf, Option.bind_eq_bind, Option.bind_eq_some_iff] at described
  obtain ⟨_, _, ⟨offset, length⟩, _, encoded, _, described⟩ := described
  split at described
  · contradiction
  · obtain ⟨d', _, described⟩ := Option.bind_eq_some_iff.mp described
    split at described
    · rename_i same
      exact Option.some.inj described ▸ same
    · contradiction

theorem Describes.dir_eq {descriptors : List PackDescriptor} (described : Describes files dir s descriptors) :
    dir = .uuid s.id := by
  obtain ⟨packs, d, rest, rfl, _, rfl⟩ := described
  obtain ⟨p, _, described⟩ := exists_item packs (List.mem_cons_self)
  exact descriptorOf_dir described

variable [Xxh3]

theorem candidateOf_dir (rebuilt : candidateOf files dir = some s) : dir = .uuid s.id := by
  obtain ⟨rebuilt, _⟩ := Option.filter_eq_some_iff.mp rebuilt
  obtain ⟨_, described⟩ := rebuildFromPacks_eq_some.mp rebuilt
  exact described.dir_eq

/-- An orphan that is complete and intact, and whose base is listed or can itself
be recovered. -/
inductive Recoverable (files : Files) (m : Manifest) : Snapshot → Prop where
  | full (s : Snapshot) (orphan : .uuid s.id ∈ orphanDirs files m)
      (whole : candidateOf files (.uuid s.id) = some s) (root : s.baseSnapshotId = none) :
      Recoverable files m s
  | listed (s base : Snapshot) (orphan : .uuid s.id ∈ orphanDirs files m)
      (whole : candidateOf files (.uuid s.id) = some s) (delta : s.baseSnapshotId = some base.id)
      (present : base ∈ m.snapshots) : Recoverable files m s
  | orphan (s base : Snapshot) (orphan : .uuid s.id ∈ orphanDirs files m)
      (whole : candidateOf files (.uuid s.id) = some s) (delta : s.baseSnapshotId = some base.id)
      (recoverable : Recoverable files m base) : Recoverable files m s

theorem Recoverable.orphaned (recoverable : Recoverable files m s) :
    .uuid s.id ∈ orphanDirs files m ∧ candidateOf files (.uuid s.id) = some s := by
  cases recoverable with
  | full _ orphan whole root => exact ⟨orphan, whole⟩
  | listed _ base orphan whole delta present => exact ⟨orphan, whole⟩
  | orphan _ base orphan whole delta recoverable => exact ⟨orphan, whole⟩

end

/-- Admission in two parts is admission in one. -/
theorem admitting_append {listed before after : List Snapshot} :
    admitting listed (before ++ after) =
      ((admitting (admitting listed before).1 after).1, (admitting listed before).2 ++
        (admitting (admitting listed before).1 after).2) := by
  induction before generalizing listed with
  | nil => rfl
  | cons c rest ih =>
    simp only [List.cons_append, admitting]
    split
    · exact ih
    · simp [ih]

/-- Only candidates are added, behind what is listed. -/
theorem admitting_begins {listed candidates : List Snapshot} :
    ∃ more, (admitting listed candidates).1 = listed ++ more ∧ more ⊆ candidates := by
  induction candidates generalizing listed with
  | nil => exact ⟨[], by simp [admitting], by simp⟩
  | cons c rest ih =>
    simp only [admitting]
    split
    · obtain ⟨more, is, only⟩ := @ih (listed ++ [c])
      exact ⟨c :: more, by simp [is], List.cons_subset_cons c only⟩
    · obtain ⟨more, is, only⟩ := @ih listed
      exact ⟨more, is, List.subset_cons_of_subset c only⟩

theorem admitting_subset {listed candidates : List Snapshot} : listed ⊆ (admitting listed candidates).1 := by
  obtain ⟨more, is, _⟩ := @admitting_begins listed candidates
  rw [is]
  exact List.subset_append_left _ _

/-- Candidates of different ids, none of them listed. -/
structure Apart (listed candidates : List Snapshot) : Prop where
  once : (candidates.map (·.id)).Nodup
  new : ∀ s ∈ listed, ∀ c ∈ candidates, s.id ≠ c.id

/-- What is turned down is what is not admitted. -/
theorem mem_rejected {listed candidates : List Snapshot} (apart : Apart listed candidates)
    {dir : Directory} : dir ∈ (admitting listed candidates).2 ↔
      ∃ c ∈ candidates, dir = .uuid c.id ∧ c ∉ (admitting listed candidates).1 := by
  induction candidates generalizing listed with
  | nil => simp [admitting]
  | cons c rest ih =>
    obtain ⟨single, once⟩ := List.nodup_cons.mp apart.once
    have other : ∀ t ∈ rest, t.id ≠ c.id := by
      intro t there same
      exact single (List.mem_map.mpr ⟨t, there, same⟩)
    simp only [admitting]
    split
    · rw [ih ⟨once, fun s there t later => ?_⟩]
      · have there : c ∈ (admitting (listed ++ [c]) rest).1 := admitting_subset (by simp)
        simp [there]
      · rcases List.mem_append.mp there with held | pushed
        · exact apart.new s held t (by simp [later])
        · obtain rfl := List.mem_singleton.mp pushed
          exact (other t later).symm
    · obtain ⟨more, is, only⟩ := @admitting_begins listed rest
      have out : c ∉ (admitting listed rest).1 := by
        rw [is]
        intro there
        rcases List.mem_append.mp there with before | after
        · exact apart.new c before c (by simp) rfl
        · exact other c (only after) rfl
      have later := @ih listed ⟨once, fun s there t later => apart.new s there t (by simp [later])⟩
      simp [later, out]

/-- A candidate is admitted when its base is listed, or comes up before it and is
admitted. -/
theorem mem_admitting {listed candidates : List Snapshot} (apart : Apart listed candidates) {t : Snapshot}
    (candidate : t ∈ candidates) : t ∈ (admitting listed candidates).1 ↔
      ∀ base, t.baseSnapshotId = some base → (∃ s ∈ listed, s.id = base) ∨
        ∃ b ∈ (admitting listed candidates).1, b.id = base ∧ [b, t].Sublist candidates := by
  obtain ⟨before, after, rfl⟩ := List.append_of_mem candidate
  obtain ⟨more, early, onlyEarly⟩ := @admitting_begins listed before
  have once : (before ++ t :: after).Nodup := List.Nodup.of_map _ apart.once
  have single : t ∉ before ++ after := (List.nodup_cons.mp (List.nodup_middle.mp once)).1
  have unlisted : t ∉ listed := fun there => apart.new t there t candidate rfl
  rw [admitting_append, early]
  simp only [admitting]
  by_cases based : (t.baseSnapshotId.all fun base => (listed ++ more).any (·.id == base)) = true
  · rw [if_pos based]
    have there : t ∈ (admitting (listed ++ more ++ [t]) after).1 := admitting_subset (by simp)
    refine iff_of_true there fun base delta => ?_
    simp only [delta, Option.all_some, List.any_eq_true, beq_iff_eq] at based
    obtain ⟨s, there, rfl⟩ := based
    rcases List.mem_append.mp there with held | new
    · exact .inl ⟨s, held, rfl⟩
    · refine .inr ⟨s, admitting_subset (by simp [new]), rfl, ?_⟩
      exact (List.singleton_sublist.mpr (onlyEarly new)).append
        (List.singleton_sublist.mpr (List.mem_cons_self))
  · rw [if_neg based]
    obtain ⟨late, later, onlyLate⟩ := @admitting_begins (listed ++ more) after
    refine iff_of_false ?_ fun known => based ?_
    · dsimp only
      rw [later]
      intro there
      rcases List.mem_append.mp there with held | pushed
      · rcases List.mem_append.mp held with held | pushed
        · exact unlisted held
        · exact single (by simp [onlyEarly pushed])
      · exact single (by simp [onlyLate pushed])
    · cases delta : t.baseSnapshotId with
      | none => rfl
      | some base =>
        simp only [Option.all_some, List.any_eq_true, beq_iff_eq]
        rcases known base delta with ⟨s, there, same⟩ | ⟨b, there, same, first⟩
        · exact ⟨s, by simp [there], same⟩
        · refine ⟨b, ?_, same⟩
          dsimp only at there
          rw [later] at there
          rcases List.mem_append.mp there with held | new'
          · exact held
          · -- a candidate that comes up first is not one that comes up later
            have earlier := mem_before once first
            have later : b ∈ t :: after := by simp [onlyLate new']
            exact absurd rfl ((List.nodup_append.mp once).2.2 b earlier b later)

section
variable [SerdeJson] [Xxh3]

/-- The orphans that can be put back, in the order they are tried in. -/
def candidates (e : Enumeration) (files : Files) (m : Manifest) : List Snapshot :=
  byStep ((e.order (orphanDirs files m)).filterMap (candidateOf files))

/-- The orphan directories that are given up. -/
def rejected (e : Enumeration) (files : Files) (m : Manifest) : List Directory :=
  (e.order (orphanDirs files m)).filter (fun dir => (candidateOf files dir).isNone) ++
    (admitting m.snapshots (candidates e files m)).2

end

theorem deletes_spec {paths : List Path} {w : World} {fail : MoonclipError → World → Prop} :
    Triple (fun s => s = w) (paths.forM Storage.delete)
      (fun _ after => after.manifest = w.manifest ∧ after.disk.removes = w.disk.removes ∧
        after.disk.files = w.disk.files.without fun p => p ∈ paths ∧ w.disk.removes p = true) fail := by
  let left (done : List Path) (s : World) : Prop := s.manifest = w.manifest ∧
    s.disk.removes = w.disk.removes ∧
      s.disk.files = w.disk.files.without fun p => p ∈ done ∧ w.disk.removes p = true
  refine Triple.weaken (left []) (Triple.forM_progress fun done b rest _ => ?_) ?_ (fun _ _ is => is)
    fun _ _ never => never
  · refine Triple.modified fun s before => ?_
    obtain ⟨manifest, removes, files⟩ := before
    split
    · rename_i gone
      obtain ⟨_, able⟩ := Bool.and_eq_true_iff.mp gone
      rw [removes] at able
      refine ⟨manifest, removes, ?_⟩
      change s.disk.files.delete b = _
      rw [files, FileStore.delete_without]
      refine FileStore.without_congr fun p _ => ?_
      by_cases same : p = b <;> simp [same, able]
    · rename_i kept
      refine ⟨manifest, removes, files.trans (FileStore.without_congr fun p there => ?_)⟩
      by_cases same : p = b
      · subst same
        rw [files, removes, FileStore.find?_without] at kept
        by_cases able : w.disk.removes p = true
        · by_cases before : p ∈ done
          · simp [before]
          · simp [before, able, there] at kept
        · simp [able]
      · simp [same]
  · rintro s rfl
    exact ⟨rfl, rfl, (FileStore.without_none (by simp)).symm⟩

section
variable [SerdeJson] [Xxh3] {e : Enumeration} {w : World}

/-- No orphan names a length that no buffer can have. -/
def Looks (e : Enumeration) (files : Files) (m : Manifest) : Prop :=
  ∀ dir ∈ orphanDirs files m, candidatePanics e files dir = false

/-- What a run of recovery leaves that does not panic. -/
structure Recovered (e : Enumeration) (w : World) (recovered : Bool) (after : World) : Prop where
  looks : Looks e w.disk.files w.manifest
  found : recovered = decide (w.manifest.snapshots.length <
    (admitting w.manifest.snapshots (candidates e w.disk.files w.manifest)).1.length)
  manifest : after.manifest = { w.manifest with
    snapshots := if recovered then
      byStep (admitting w.manifest.snapshots (candidates e w.disk.files w.manifest)).1
      else (admitting w.manifest.snapshots (candidates e w.disk.files w.manifest)).1 }
  removes : after.disk.removes = w.disk.removes
  files : after.disk.files = w.disk.files.without fun p =>
    p ∈ (rejected e w.disk.files w.manifest).flatMap (filesIn w.disk.files) ∧ w.disk.removes p = true

/-- A run that panics has changed nothing. -/
theorem recovered_spec : Triple (fun s => s = w) (recoverOrReclaimOrphans e) (Recovered e w)
    fun _ after => after = w ∧ ¬ Looks e w.disk.files w.manifest := by
  refine Triple.get_bind_of ?_
  extract_lets files orphans candidates
  dsimp -zeta only
  extract_lets rejects recovered snapshots
  have looks : orphans.any (candidatePanics e files) = true ↔ ¬ Looks e w.disk.files w.manifest := by
    simp [Looks, orphans, files, (e.perm _).mem_iff]
  split
  · rename_i panics
    exact Triple.throw fun s same => ⟨same, looks.mp panics⟩
  · rename_i calm
    refine Triple.modify_bind (fun s => s = { w with manifest := { w.manifest with snapshots := snapshots } })
      (fun s same => by rw [same]) fun _ => ?_
    refine Triple.bind _ deletes_spec fun _ => ?_
    apply Triple.pure
    rintro after ⟨manifest, removes, left⟩
    exact ⟨not_not.mp (mt looks.mpr calm), rfl, manifest, removes, left⟩

theorem recovered_run (looks : Looks e w.disk.files w.manifest) : ∃ recovered after,
    recoverOrReclaimOrphans e w = .ok recovered after ∧ Recovered e w recovered after := by
  have outcome := @recovered_spec _ _ e w w rfl
  cases ran : recoverOrReclaimOrphans e w with
  | ok recovered after =>
    rw [ran] at outcome
    exact ⟨recovered, after, rfl, outcome⟩
  | error err after =>
    rw [ran] at outcome
    exact absurd looks outcome.2

variable {files : Files} {m : Manifest} {s : Snapshot}

theorem mem_candidates : s ∈ candidates e files m ↔
    .uuid s.id ∈ orphanDirs files m ∧ candidateOf files (.uuid s.id) = some s := by
  rw [candidates, (byStep_perm _).mem_iff, List.mem_filterMap]
  constructor
  · rintro ⟨dir, there, whole⟩
    have dirEq := candidateOf_dir whole
    exact ⟨(e.perm _).subset (dirEq ▸ there), dirEq ▸ whole⟩
  · rintro ⟨there, whole⟩
    exact ⟨_, (e.perm _).symm.subset there, whole⟩

theorem candidates_apart : Apart m.snapshots (candidates e files m) where
  once := by
    have once : (e.order (orphanDirs files m)).Nodup :=
      (e.perm _).nodup_iff.mpr (List.nodup_dedup _)
    have dirs : ((candidates e files m).map fun s => Directory.uuid s.id).Nodup := by
      refine ((byStep_perm _).map _).nodup_iff.mpr (once.sublist (filterMap_sublist fun dir s whole => ?_))
      exact (candidateOf_dir whole).symm
    have twice : (((candidates e files m).map (·.id)).map Directory.uuid).Nodup := by
      rwa [List.map_map]
    exact List.Nodup.of_map _ twice
  new := by
    intro t listed s candidate same
    exact orphanDirs_apart (mem_candidates.mp candidate).1 listed (by rw [same])

/-- One candidate comes up before another. -/
def Precedes (e : Enumeration) (files : Files) (m : Manifest) (b d : Snapshot) : Prop :=
  b.step < d.step ∨ b.step = d.step ∧
    [Directory.uuid b.id, .uuid d.id].Sublist (e.order (orphanDirs files m))

theorem precedes_iff {b d : Snapshot} (here : b ∈ candidates e files m) (there : d ∈ candidates e files m)
    (other : b ≠ d) : [b, d].Sublist (candidates e files m) ↔ Precedes e files m b d := by
  have once : (candidates e files m).Nodup := List.Nodup.of_map _ candidates_apart.once
  have sorted := @pair_sortBy _ _ b d (·.step) ((byStep_perm _).nodup_iff.mp once)
    ((byStep_perm _).subset here)
    ((byStep_perm _).subset there) other
  refine sorted.trans (or_congr_right (and_congr_right fun _ => ?_))
  constructor
  · intro first
    have dirs := first.map fun s => Directory.uuid s.id
    exact dirs.trans (filterMap_sublist fun dir s whole => (candidateOf_dir whole).symm)
  · intro first
    have rebuilt := first.filterMap (candidateOf files)
    simpa [(mem_candidates.mp here).2, (mem_candidates.mp there).2] using rebuilt

/-- Every orphan that can be recovered is listed, and none of its files is gone. -/
structure Readmits (w after : World) : Prop where
  listed : ∀ s, Recoverable w.disk.files w.manifest s → s ∈ after.manifest.snapshots
  spared : ∀ p, (w.disk.files.find? p).isSome = true → after.disk.files.find? p = none →
    ∃ dir ∈ orphanDirs w.disk.files w.manifest, p.under dir = true ∧
      ∀ s, Recoverable w.disk.files w.manifest s → dir ≠ .uuid s.id

theorem Recoverable.candidate (recoverable : Recoverable files m s) : s ∈ candidates e files m :=
  mem_candidates.mpr recoverable.orphaned

/-- An orphan that is complete and intact, and whose base is listed or is such an orphan
that comes up first. -/
inductive InOrder (e : Enumeration) (files : Files) (m : Manifest) : Snapshot → Prop where
  | full (s : Snapshot) (orphan : .uuid s.id ∈ orphanDirs files m)
      (whole : candidateOf files (.uuid s.id) = some s) (root : s.baseSnapshotId = none) :
      InOrder e files m s
  | listed (s base : Snapshot) (orphan : .uuid s.id ∈ orphanDirs files m)
      (whole : candidateOf files (.uuid s.id) = some s) (delta : s.baseSnapshotId = some base.id)
      (present : base ∈ m.snapshots) : InOrder e files m s
  | orphan (s base : Snapshot) (orphan : .uuid s.id ∈ orphanDirs files m)
      (whole : candidateOf files (.uuid s.id) = some s) (delta : s.baseSnapshotId = some base.id)
      (put : InOrder e files m base) (first : Precedes e files m base s) : InOrder e files m s

theorem InOrder.orphaned (put : InOrder e files m s) :
    .uuid s.id ∈ orphanDirs files m ∧ candidateOf files (.uuid s.id) = some s := by
  cases put with
  | full _ orphan whole root => exact ⟨orphan, whole⟩
  | listed _ base orphan whole delta present => exact ⟨orphan, whole⟩
  | orphan _ base orphan whole delta put first => exact ⟨orphan, whole⟩

theorem InOrder.candidate (put : InOrder e files m s) : s ∈ candidates e files m :=
  mem_candidates.mpr put.orphaned

/-- Where bases come up first, whatever can be recovered is in order. -/
theorem Recoverable.inOrder (recoverable : Recoverable files m s)
    (basesFirst : ∀ b d, Recoverable files m b → Recoverable files m d → d.baseSnapshotId = some b.id →
      Precedes e files m b d) : InOrder e files m s := by
  induction recoverable with
  | full s orphan whole root => exact .full s orphan whole root
  | listed s base orphan whole delta present => exact .listed s base orphan whole delta present
  | orphan s base orphan whole delta recoverable put =>
    exact .orphan s base orphan whole delta put
      (basesFirst base s recoverable (.orphan s base orphan whole delta recoverable) delta)

omit [SerdeJson] [Xxh3] in
theorem Precedes.ne {b d : Snapshot} (first : Precedes e files m b d) : b ≠ d := by
  rintro rfl
  rcases first with less | ⟨_, twice⟩
  · exact lt_irrefl _ less
  · have once := (((e.perm _).nodup_iff.mpr (List.nodup_dedup _)).sublist twice)
    simp at once

theorem InOrder.admitted (put : InOrder e files m s) :
    s ∈ (admitting m.snapshots (candidates e files m)).1 := by
  induction put with
  | full s orphan whole root =>
    apply (mem_admitting candidates_apart (mem_candidates.mpr ⟨orphan, whole⟩)).mpr
    intro base delta
    rw [root] at delta
    contradiction
  | listed s base orphan whole delta present =>
    apply (mem_admitting candidates_apart (mem_candidates.mpr ⟨orphan, whole⟩)).mpr
    intro id based
    obtain rfl : base.id = id := by simpa [delta] using based
    exact .inl ⟨base, present, rfl⟩
  | orphan s base orphan whole delta put first admitted =>
    have candidate : s ∈ candidates e files m := mem_candidates.mpr ⟨orphan, whole⟩
    apply (mem_admitting candidates_apart candidate).mpr
    intro id based
    obtain rfl : base.id = id := by simpa [delta] using based
    exact .inr ⟨base, admitted, rfl, (precedes_iff put.candidate candidate first.ne).mpr first⟩

/-- What is admitted is in order: its base came up before it. -/
theorem inOrder_of_admitted (candidate : s ∈ candidates e files m)
    (admitted : s ∈ (admitting m.snapshots (candidates e files m)).1) : InOrder e files m s := by
  classical
  induction place : (candidates e files m).idxOf s using Nat.strong_induction_on generalizing s with
  | _ n earlier =>
    obtain ⟨orphan, whole⟩ := mem_candidates.mp candidate
    cases based : s.baseSnapshotId with
    | none => exact .full s orphan whole based
    | some id =>
      rcases (mem_admitting candidates_apart candidate).mp admitted id based with
        ⟨base, listed, rfl⟩ | ⟨base, put, rfl, first⟩
      · exact .listed s base orphan whole based listed
      · have once : (candidates e files m).Nodup := List.Nodup.of_map _ candidates_apart.once
        have before := idxOf_lt_of_pair once first
        have known : base ∈ candidates e files m := first.subset (by simp)
        have other : base ≠ s := by
          rintro rfl
          exact lt_irrefl _ before
        exact .orphan s base orphan whole based (earlier _ (place ▸ before) known put rfl)
          ((precedes_iff known candidate other).mp first)

theorem Recovered.mem_snapshots {recovered : Bool} {after : World} (run : Recovered e w recovered after) :
    s ∈ after.manifest.snapshots ↔
      s ∈ (admitting w.manifest.snapshots (candidates e w.disk.files w.manifest)).1 := by
  rw [run.manifest]
  dsimp only
  split
  · exact (byStep_perm _).mem_iff
  · exact Iff.rfl

/-- What is deleted lay under a name that was given up. -/
theorem Recovered.deleted {recovered : Bool} {after : World} (run : Recovered e w recovered after) {p : Path}
    (before : (w.disk.files.find? p).isSome = true) (gone : after.disk.files.find? p = none) :
    ∃ dir ∈ rejected e w.disk.files w.manifest, p.under dir = true := by
  rw [run.files, FileStore.find?_without] at gone
  split at gone
  · rename_i out
    obtain ⟨dir, there, inside⟩ := List.mem_flatMap.mp out.1
    exact ⟨dir, there, (mem_filesIn.mp inside).1⟩
  · simp [gone] at before

theorem mem_admitted (there : s ∈ (admitting m.snapshots (candidates e files m)).1) :
    s ∈ m.snapshots ∨ s ∈ candidates e files m := by
  obtain ⟨more, is, only⟩ := @admitting_begins m.snapshots (candidates e files m)
  rw [is] at there
  exact (List.mem_append.mp there).imp_right fun pushed => only pushed

/-- The directories given up are those of no snapshot listed afterwards. -/
theorem mem_rejected_iff {dir : Directory} : dir ∈ rejected e files m ↔ dir ∈ orphanDirs files m ∧
    ∀ s ∈ (admitting m.snapshots (candidates e files m)).1, dir ≠ .uuid s.id := by
  rw [rejected, List.mem_append, List.mem_filter, (e.perm _).mem_iff, mem_rejected candidates_apart]
  constructor
  · rintro (⟨there, lost⟩ | ⟨c, candidate, rfl, out⟩)
    · refine ⟨there, fun s admitted => ?_⟩
      rcases mem_admitted admitted with held | candidate
      · exact orphanDirs_apart there held
      · rintro rfl
        rw [(mem_candidates.mp candidate).2] at lost
        contradiction
    · refine ⟨(mem_candidates.mp candidate).1, fun s admitted => ?_⟩
      rcases mem_admitted admitted with held | other
      · exact orphanDirs_apart (mem_candidates.mp candidate).1 held
      · intro same
        have whole := (mem_candidates.mp candidate).2
        rw [same, (mem_candidates.mp other).2] at whole
        obtain rfl := Option.some.inj whole
        exact out admitted
  · rintro ⟨there, out⟩
    cases whole : candidateOf files dir with
    | none => exact .inl ⟨there, rfl⟩
    | some s =>
      obtain rfl := candidateOf_dir whole
      exact .inr ⟨s, mem_candidates.mpr ⟨there, whole⟩, rfl, fun admitted => out s admitted rfl⟩

/-- Recovery brings back whatever can be recovered exactly when it comes upon no length
that no buffer can have, and no delta comes up before the orphan it is based on. -/
theorem readmits_iff (e : Enumeration) (w : World) :
    (∃ recovered after, recoverOrReclaimOrphans e w = .ok recovered after ∧ Readmits w after) ↔
      (∀ dir ∈ orphanDirs w.disk.files w.manifest, candidatePanics e w.disk.files dir = false) ∧
      ∀ b d, Recoverable w.disk.files w.manifest b → Recoverable w.disk.files w.manifest d →
        d.baseSnapshotId = some b.id → Precedes e w.disk.files w.manifest b d := by
  constructor
  · rintro ⟨recovered, after, ran, readmits⟩
    have run := recovered_spec.ok rfl ran
    refine ⟨run.looks, fun b d base delta based => ?_⟩
    have admitted := run.mem_snapshots.mp (readmits.listed d delta)
    cases inOrder_of_admitted (e := e) delta.candidate admitted with
    | full _ orphan whole root =>
      rw [root] at based
      contradiction
    | listed _ t orphan whole delta present =>
      obtain same : t.id = b.id := Option.some.inj (delta.symm.trans based)
      exact absurd same (candidates_apart.new t present b (base.candidate (e := e)))
    | orphan _ t orphan whole delta put first =>
      obtain same : t.id = b.id := Option.some.inj (delta.symm.trans based)
      obtain rfl : t = b :=
        List.inj_on_of_nodup_map (candidates_apart (e := e)).once put.candidate base.candidate same
      exact first
  · rintro ⟨looks, basesFirst⟩
    obtain ⟨recovered, after, ran, run⟩ := recovered_run looks
    have listed : ∀ s, Recoverable w.disk.files w.manifest s → s ∈ after.manifest.snapshots :=
      fun s recoverable => run.mem_snapshots.mpr (recoverable.inOrder basesFirst).admitted
    refine ⟨recovered, after, ran, listed, fun p before gone => ?_⟩
    obtain ⟨dir, out, inside⟩ := run.deleted before gone
    obtain ⟨there, out⟩ := mem_rejected_iff.mp out
    exact ⟨dir, there, inside, fun s recoverable =>
      out s (run.mem_snapshots.mp (listed s recoverable))⟩

end

namespace Rewound
open Coordinator.OneFull (config blank describing)

abbrev serde : SerdeJson :=
  JsonText.serde (fun _ => []) [] [⟨1, (Coordinator.emptyFull 1 200 false).ranks⟩,
      ⟨2, (Coordinator.emptyFull 2 100 false).ranks⟩]
    [describing 1 200, { describing 2 100 with baseSnapshotId := some 1 }] []

/-- A new store whose disk has no room for the index. -/
def opened : World :=
  @finalState _ _ _ (@openStore serde Linked.xxh3 config inOrder)
    { blank with disk := { blank.disk with accepts := fun p _ => p != .manifestJson } }

def full : World :=
  @finalState _ _ _ (@Coordinator.saveSync serde Linked.zstd Linked.xxh3 config 1 [] ⟨200, 0, ∅⟩) opened

def delta : World :=
  @finalState _ _ _ (@Coordinator.saveSync serde Linked.zstd Linked.xxh3 config 2 [] ⟨100, 0, ∅⟩) full

/-- The files, as the next process finds them. -/
def found : World := { delta with manifest := .default }

def recovered : World := @finalState _ _ _ (@recoverOrReclaimOrphans serde Linked.xxh3 inOrder) found

end Rewound

/-- A full is saved at step 200, a delta of it at step 100, and neither is put on
record: recovery brings back the full and deletes the delta. -/
theorem rewound_delta_deleted :
    let _ := Linked.zstd
    let _ := Linked.xxh3
    let _ := Rewound.serde
    ∃ recovered after s, recoverOrReclaimOrphans inOrder Rewound.found = .ok recovered after ∧
      Recoverable Rewound.found.disk.files Rewound.found.manifest s ∧ s ∉ after.manifest.snapshots ∧
      (Rewound.found.disk.files.find? (packPath s.id 0)).isSome = true ∧
      after.disk.files.find? (packPath s.id 0) = none := by
  intro zstd xxh3 serde
  have ran : returns (recoverOrReclaimOrphans inOrder) Rewound.found = true ∧
      orphanDirs Rewound.found.disk.files Rewound.found.manifest = [.uuid 2, .uuid 1] ∧
      (candidateOf Rewound.found.disk.files (.uuid 1)).map (·.baseSnapshotId) = some none ∧
      (candidateOf Rewound.found.disk.files (.uuid 2)).map (·.baseSnapshotId) = some (some 1) ∧
      (∀ s ∈ Rewound.recovered.manifest.snapshots, s.id = 1) ∧
      (Rewound.found.disk.files.find? (packPath 2 0)).isSome = true ∧
      (Rewound.recovered.disk.files.find? (packPath 2 0)).isNone = true := by
    decide +kernel
  obtain ⟨recovering, orphans, full, delta, listed, present, gone⟩ := ran
  obtain ⟨recovered, recovering⟩ := exists_ok recovering
  obtain ⟨b, full, root⟩ := Option.map_eq_some_iff.mp full
  obtain ⟨d, delta, based⟩ := Option.map_eq_some_iff.mp delta
  obtain one : 1 = b.id := by simpa using candidateOf_dir full
  obtain two : 2 = d.id := by simpa using candidateOf_dir delta
  have base : Recoverable Rewound.found.disk.files Rewound.found.manifest b :=
    .full b (by rw [← one, orphans]; simp) (by rw [← one]; exact full) root
  refine ⟨recovered, _, d, recovering, ?_, ?_, by rw [← two]; exact present,
    by rw [← two]; exact Option.isNone_iff_eq_none.mp gone⟩
  · exact .orphan d b (by rw [← two, orphans]; simp) (by rw [← two]; exact delta) (by rw [based, one]) base
  · intro there
    have one := listed d there
    rw [← two] at one
    simp at one

end Recovery
end Moonclip
