import Moonclip.Readmission

/-! What recovery does to a store beyond bringing snapshots back: what it deletes, what it
lists without need, and what it leaves for another run to do. -/
namespace Moonclip
open Library.Codec Library.Effect Library.Files Library.Outcome

namespace Recovery

section
variable [SerdeJson] [Xxh3] {e again : Enumeration} {w after : World} {files : Files} {m : Manifest}
  {dir : Directory} {s t : Snapshot} {p : Path}

/-- Every rank has its pack, all of them tell of so many, and what they say they hold is
there. -/
structure Complete (files : Files) (s : Snapshot) : Prop where
  described : ∃ descriptors, Describes files (.uuid s.id) s descriptors ∧
    ∀ d ∈ descriptors, d.worldSize = s.ranks.size
  intact : ∀ (rank : Nat) (entry : RankEntry), s.ranks[rank]? = some entry → ∀ tensor ∈ entry.tensors,
    tensorIsIntact files entry.packFile tensor = true

/-- Only files of snapshot directories change, and none of a snapshot that is listed; what
was listed stays as it was, what is added is complete, and another run does nothing. -/
structure Harmless (w after : World) : Prop where
  spared : ∀ p, after.disk.files.find? p ≠ w.disk.files.find? p →
    (∃ dir name, p = .snapshots dir name ∧ ∀ text, dir ≠ .foreign text) ∧
      ∀ s, s ∈ w.manifest.snapshots ∨ s ∈ after.manifest.snapshots →
        p.belongsTo s.id = false ∧ p ∉ s.filesOf none
  kept : after.manifest = { w.manifest with snapshots := after.manifest.snapshots }
  added : ∃ admitted, after.manifest.snapshots.Perm (w.manifest.snapshots ++ admitted) ∧
    ∀ s ∈ admitted, (∀ t ∈ w.manifest.snapshots, t.id ≠ s.id) ∧ Complete w.disk.files s ∧
      ∀ base, s.baseSnapshotId = some base → ∃ t ∈ after.manifest.snapshots, t.id = base
  settled : ∀ again, finalState (recoverOrReclaimOrphans again) after = after

/-- The orphans a run lists: unless it panics, those that are in order. -/
structure PutBack (e : Enumeration) (files : Files) (m : Manifest) (s : Snapshot) : Prop where
  looks : Looks e files m
  inOrder : InOrder e files m s

/-- The other orphans. -/
def GivenUp (e : Enumeration) (files : Files) (m : Manifest) (dir : Directory) : Prop :=
  dir ∈ orphanDirs files m ∧ ∀ s, PutBack e files m s → dir ≠ .uuid s.id

/-- Of the files of an orphan that is given up, those the storage deletes. -/
def Deleted (e : Enumeration) (w : World) (p : Path) : Prop :=
  Looks e w.disk.files w.manifest ∧ (∃ dir, GivenUp e w.disk.files w.manifest dir ∧ p.under dir = true) ∧
    (w.disk.files.find? p).isSome = true ∧ w.disk.removes p = true

open Classical in
/-- What is there without them. -/
noncomputable def leftOf (e : Enumeration) (w : World) : Files := w.disk.files.without (Deleted e w)

theorem find?_leftOf_of_deleted (gone : Deleted e w p) : (leftOf e w).find? p = none := if_pos gone

theorem find?_leftOf (stays : ¬ Deleted e w p) : (leftOf e w).find? p = w.disk.files.find? p := if_neg stays

/-- What a run leaves, whether it panics or not. -/
structure Leaves (e : Enumeration) (w after : World) : Prop where
  manifest : after.manifest = { w.manifest with snapshots := after.manifest.snapshots }
  listed : ∃ admitted, after.manifest.snapshots.Perm (w.manifest.snapshots ++ admitted) ∧
    ∀ s, s ∈ admitted ↔ PutBack e w.disk.files w.manifest s
  removes : after.disk.removes = w.disk.removes
  files : after.disk.files = leftOf e w

theorem Recovered.listed {recovered : Bool} (run : Recovered e w recovered after) :
    ∃ admitted, after.manifest.snapshots.Perm (w.manifest.snapshots ++ admitted) ∧
      ∀ s, s ∈ admitted ↔ PutBack e w.disk.files w.manifest s := by
  obtain ⟨admitted, is, only⟩ := @admitting_begins w.manifest.snapshots (candidates e w.disk.files w.manifest)
  refine ⟨admitted, ?_, fun s => ⟨fun new => ?_, fun put => ?_⟩⟩
  · rw [run.manifest, ← is]
    dsimp only
    split
    · exact byStep_perm _
    · exact .refl _
  · exact ⟨run.looks, inOrder_of_admitted (only new) (is ▸ List.mem_append_right _ new)⟩
  · have there := put.inOrder.admitted
    rw [is] at there
    refine (List.mem_append.mp there).resolve_left fun before => ?_
    exact orphanDirs_apart put.inOrder.orphaned.1 before rfl

theorem Recovered.mem_rejected {recovered : Bool} (run : Recovered e w recovered after) :
    dir ∈ rejected e w.disk.files w.manifest ↔ GivenUp e w.disk.files w.manifest dir := by
  rw [mem_rejected_iff, GivenUp]
  refine and_congr_right fun orphan => ⟨fun out s put => out s put.inOrder.admitted, fun out s there => ?_⟩
  rcases mem_admitted there with before | candidate
  · exact orphanDirs_apart orphan before
  · exact out s ⟨run.looks, inOrder_of_admitted candidate there⟩

theorem leaves : Leaves e w (finalState (recoverOrReclaimOrphans e) w) := by
  classical
  have outcome := @recovered_spec _ _ e w w rfl
  unfold finalState
  cases ran : recoverOrReclaimOrphans e w with
  | ok recovered after =>
    rw [ran] at outcome
    have run : Recovered e w recovered after := outcome
    refine ⟨by rw [run.manifest], run.listed, run.removes, run.files.trans ?_⟩
    refine FileStore.without_congr fun p there => ?_
    simp only [Deleted, List.mem_flatMap, mem_filesIn, run.mem_rejected, there, run.looks, true_and, and_true]
  | error err after =>
    rw [ran] at outcome
    obtain ⟨rfl, panics⟩ := outcome
    refine ⟨rfl, ⟨[], by simp, fun s => ?_⟩, rfl, ?_⟩
    · simpa using fun put : PutBack e after.disk.files after.manifest s => panics put.looks
    · exact (FileStore.without_none fun p gone => panics gone.1).symm

theorem Leaves.mem_snapshots (left : Leaves e w after) :
    s ∈ after.manifest.snapshots ↔ s ∈ w.manifest.snapshots ∨ PutBack e w.disk.files w.manifest s := by
  obtain ⟨admitted, perm, only⟩ := left.listed
  rw [perm.mem_iff, List.mem_append, only]

/-- The orphans of the next run are those given up of which something is left. -/
theorem Leaves.mem_orphanDirs (left : Leaves e w after) : dir ∈ orphanDirs after.disk.files after.manifest ↔
    GivenUp e w.disk.files w.manifest dir ∧ ∃ p, p.under dir = true ∧
      ((leftOf e w).find? p).isSome = true := by
  classical
  rw [Recovery.mem_orphanDirs, left.files, GivenUp, Recovery.mem_orphanDirs, isOrphan_iff, isOrphan_iff]
  constructor
  · rintro ⟨⟨p, inside, found⟩, known, unlisted⟩
    refine ⟨⟨⟨⟨p, inside, ?_⟩, known, fun s listed => unlisted s (left.mem_snapshots.mpr (.inl listed))⟩,
      fun s put => unlisted s (left.mem_snapshots.mpr (.inr put))⟩, p, inside, found⟩
    rw [leftOf, FileStore.find?_without] at found
    split at found
    · contradiction
    · exact found
  · rintro ⟨⟨⟨_, known, unlisted⟩, turned⟩, p, inside, found⟩
    refine ⟨⟨p, inside, found⟩, known, fun s listed => ?_⟩
    exact (left.mem_snapshots.mp listed).elim (unlisted s) (turned s)

omit [SerdeJson] [Xxh3] in
/-- Where every file that is to go stays, deleting changes nothing. -/
theorem forM_delete_refused {paths : List Path} (refused : ∀ p ∈ paths, w.disk.removes p = false) :
    paths.forM Storage.delete w = .ok () w := by
  induction paths with
  | nil => rfl
  | cons p rest ih =>
    have stays : Storage.delete p w = .ok () w := modify_eq_ok.mpr (by simp [refused p])
    change (Storage.delete p >>= fun _ => rest.forM Storage.delete) w = _
    exact bind_eq_ok.mpr ⟨(), w, stays, ih fun q there => refused q (by simp [there])⟩

/-- An orphan that cannot be put back, and of which the storage deletes nothing. -/
structure Inert (files : Files) (removes : Path → Bool) (based : Uuid → Prop) (dir : Directory) : Prop where
  dangling : ∀ s, candidateOf files dir = some s → ∃ base, s.baseSnapshotId = some base ∧ ¬ based base
  stuck : ∀ p, p.under dir = true → (files.find? p).isSome = true → removes p = false

theorem not_inOrder (inert : ∀ dir ∈ orphanDirs files m,
    ∀ s, candidateOf files dir = some s → ∃ base, s.baseSnapshotId = some base ∧
      ¬ ∃ t ∈ m.snapshots, t.id = base) :
    ¬ InOrder e files m s := by
  intro put
  induction put with
  | full s orphan whole root =>
    obtain ⟨base, delta, _⟩ := inert _ orphan s whole
    rw [root] at delta
    contradiction
  | listed s base orphan whole delta present =>
    obtain ⟨_, same, missing⟩ := inert _ orphan s whole
    obtain rfl := Option.some.inj (delta.symm.trans same)
    exact missing ⟨base, present, rfl⟩
  | orphan s base orphan whole delta put first none => exact none

/-- Where nothing can be put back and nothing deleted, nothing happens. -/
theorem recoverOrReclaimOrphans_idle (looks : Looks e w.disk.files w.manifest)
    (inert : ∀ dir ∈ orphanDirs w.disk.files w.manifest,
      Inert w.disk.files w.disk.removes (fun id => ∃ t ∈ w.manifest.snapshots, t.id = id) dir) :
    recoverOrReclaimOrphans e w = .ok false w := by
  have calm : ¬ (e.order (orphanDirs w.disk.files w.manifest)).any
    (candidatePanics e w.disk.files) = true := by
    simpa [Looks, (e.perm _).mem_iff] using looks
  obtain ⟨more, is, only⟩ := @admitting_begins w.manifest.snapshots (candidates e w.disk.files w.manifest)
  obtain rfl : more = [] := List.eq_nil_iff_forall_not_mem.mpr fun s new =>
    not_inOrder (fun dir orphan => (inert dir orphan).dangling)
      (inOrder_of_admitted (only new) (is ▸ List.mem_append_right _ new))
  rw [List.append_nil] at is
  have refused : ∀ p ∈ (rejected e w.disk.files w.manifest).flatMap (filesIn w.disk.files),
      w.disk.removes p = false := by
    intro p there
    obtain ⟨dir, out, inside⟩ := List.mem_flatMap.mp there
    obtain ⟨inside, found⟩ := mem_filesIn.mp inside
    exact (inert dir (mem_rejected_iff.mp out).1).stuck p inside found
  have deletes := forM_delete_refused refused
  rw [rejected] at deletes
  rw [candidates] at is deletes
  rw [recoverOrReclaimOrphans, get_bind_apply]
  simp only [if_neg calm]
  generalize admitting w.manifest.snapshots
    (byStep ((e.order (orphanDirs w.disk.files w.manifest)).filterMap (candidateOf w.disk.files))) =
      result at is deletes
  obtain ⟨listed, dangling⟩ := result
  obtain rfl : listed = w.manifest.snapshots := is
  simp only [lt_irrefl, decide_false, Bool.false_eq_true, if_false]
  exact bind_eq_ok.mpr ⟨(), w, rfl, bind_eq_ok.mpr ⟨(), w, deletes, rfl⟩⟩

/-- A run does nothing exactly when it panics or has nothing to do. -/
theorem run_idle_iff : finalState (recoverOrReclaimOrphans again) w = w ↔
    ¬ Looks again w.disk.files w.manifest ∨ ∀ dir ∈ orphanDirs w.disk.files w.manifest,
      Inert w.disk.files w.disk.removes (fun id => ∃ t ∈ w.manifest.snapshots, t.id = id) dir := by
  have left := @leaves _ _ again w
  constructor
  · intro same
    rw [same] at left
    rw [or_iff_not_imp_left, not_not]
    intro looks dir orphan
    have none : ∀ s, ¬ PutBack again w.disk.files w.manifest s := by
      obtain ⟨admitted, perm, only⟩ := left.listed
      have length := perm.length_eq
      rw [List.length_append] at length
      obtain rfl : admitted = [] := List.length_eq_zero_iff.mp (by omega)
      exact fun s put => List.not_mem_nil ((only s).mpr put)
    refine ⟨fun s whole => ?_, fun p inside found => ?_⟩
    · obtain rfl := candidateOf_dir whole
      cases based : s.baseSnapshotId with
      | none => exact absurd ⟨looks, .full s orphan whole based⟩ (none s)
      | some base =>
        refine ⟨base, rfl, ?_⟩
        rintro ⟨t, listed, rfl⟩
        exact none s ⟨looks, .listed s t orphan whole based listed⟩
    · rw [← Bool.not_eq_true]
      intro able
      have gone : Deleted again w p :=
        ⟨looks, ⟨dir, ⟨orphan, fun s put => absurd put (none s)⟩, inside⟩, found, able⟩
      rw [left.files, find?_leftOf_of_deleted gone] at found
      contradiction
  · intro idle
    by_cases looks : Looks again w.disk.files w.manifest
    · rw [finalState, recoverOrReclaimOrphans_idle looks (idle.resolve_left (not_not.mpr looks))]
    · have outcome := @recovered_spec _ _ again w w rfl
      unfold finalState
      cases ran : recoverOrReclaimOrphans again w with
      | ok recovered after =>
        rw [ran] at outcome
        exact absurd outcome.looks looks
      | error err after =>
        rw [ran] at outcome
        exact outcome.1

theorem filesIn_leftOf_nil (bare : ¬ ∃ p, p.under dir = true ∧ ((leftOf e w).find? p).isSome = true) :
    filesIn (leftOf e w) dir = [] :=
  List.eq_nil_iff_forall_not_mem.mpr fun p there => bare ⟨p, mem_filesIn.mp there⟩

theorem rebuildFromPacks_bare (bare : ¬ ∃ p, p.under dir = true ∧ ((leftOf e w).find? p).isSome = true) :
    rebuildFromPacks (leftOf e w) dir (filesIn (leftOf e w) dir) = none := by
  rw [filesIn_leftOf_nil bare]
  rfl

/-- A directory of which nothing is left is nothing to look into. -/
theorem candidatePanics_bare (bare : ¬ ∃ p, p.under dir = true ∧ ((leftOf e w).find? p).isSome = true) :
    candidatePanics again (leftOf e w) dir = false := by
  rw [candidatePanics, rebuildFromPacks_bare bare, filesIn_leftOf_nil bare]
  rfl

theorem Inert.bare {removes : Path → Bool} {based : Uuid → Prop}
    (bare : ¬ ∃ p, p.under dir = true ∧ ((leftOf e w).find? p).isSome = true) :
    Inert (leftOf e w) removes based dir := by
  refine ⟨fun s whole => ?_, fun p inside found => absurd ⟨p, inside, found⟩ bare⟩
  rw [candidateOf, rebuildFromPacks_bare bare] at whole
  contradiction

/-- What another run does with what a run leaves. -/
theorem Leaves.idle_iff (left : Leaves e w after) :
    finalState (recoverOrReclaimOrphans again) after = after ↔
      (∃ dir, GivenUp e w.disk.files w.manifest dir ∧ candidatePanics again (leftOf e w) dir = true) ∨
      ∀ dir, GivenUp e w.disk.files w.manifest dir → Inert (leftOf e w) w.disk.removes
        (fun id => ∃ t, (t ∈ w.manifest.snapshots ∨ PutBack e w.disk.files w.manifest t) ∧
          t.id = id) dir := by
  rw [run_idle_iff]
  simp only [Looks, not_forall, left.mem_orphanDirs, exists_prop]
  simp only [left.mem_snapshots, left.files, left.removes, Bool.not_eq_false]
  constructor
  · rintro (⟨dir, ⟨given, _⟩, panics⟩ | inert)
    · exact .inl ⟨dir, given, panics⟩
    · refine .inr fun dir given => ?_
      by_cases bare : ∃ p, p.under dir = true ∧ ((leftOf e w).find? p).isSome = true
      · exact inert dir ⟨given, bare⟩
      · exact Inert.bare bare
  · rintro (⟨dir, given, panics⟩ | inert)
    · refine .inl ⟨dir, ⟨given, ?_⟩, panics⟩
      by_contra bare
      rw [candidatePanics_bare bare] at panics
      contradiction
    · exact .inr fun dir there => inert dir there.1

/-- The base of what is put back is listed, or put back too. -/
theorem InOrder.based (put : InOrder e files m s) {base : Uuid} (delta : s.baseSnapshotId = some base) :
    ∃ t, (t ∈ m.snapshots ∨ InOrder e files m t) ∧ t.id = base := by
  cases put with
  | full _ orphan whole root =>
    rw [root] at delta
    contradiction
  | listed _ t orphan whole based present => exact ⟨t, .inl present, Option.some.inj (based.symm.trans delta)⟩
  | orphan _ t orphan whole based put first => exact ⟨t, .inr put, Option.some.inj (based.symm.trans delta)⟩

/-- Nothing that recovery deletes lies outside a directory or is named by a snapshot of
another; the packs of what it puts back agree on how many they are; and what the storage
keeps of the rest is past saving. -/
structure Tame (e : Enumeration) (w : World) : Prop where
  plain : ∀ dir, ¬ Deleted e w (.loose dir)
  named : ∀ s, s ∈ w.manifest.snapshots ∨ PutBack e w.disk.files w.manifest s →
    ∀ p ∈ s.filesOf none, ¬ Deleted e w p
  agreed : ∀ s, PutBack e w.disk.files w.manifest s → ∀ descriptors,
    Describes w.disk.files (.uuid s.id) s descriptors → ∀ d ∈ descriptors, d.worldSize = s.ranks.size
  settled : ∀ again : Enumeration,
    (∃ dir, GivenUp e w.disk.files w.manifest dir ∧ candidatePanics again (leftOf e w) dir = true) ∨
    ∀ dir, GivenUp e w.disk.files w.manifest dir → Inert (leftOf e w) w.disk.removes
      (fun id => ∃ t, (t ∈ w.manifest.snapshots ∨ PutBack e w.disk.files w.manifest t) ∧ t.id = id) dir

omit [Xxh3] in
theorem Describes.unique {d₁ d₂ : List PackDescriptor} (first : Describes files dir s d₁)
    (second : Describes files dir s d₂) : d₁ = d₂ :=
  Option.some.inj ((mapM_eq_some.mpr first.packs).symm.trans (mapM_eq_some.mpr second.packs))

/-- Only files of what is given up change, and they are gone. -/
theorem Leaves.deleted (left : Leaves e w after)
    (different : after.disk.files.find? p ≠ w.disk.files.find? p) : Deleted e w p := by
  by_contra stays
  exact different (left.files ▸ find?_leftOf stays)

theorem Leaves.gone (left : Leaves e w after) (gone : Deleted e w p) :
    after.disk.files.find? p ≠ w.disk.files.find? p := by
  intro same
  have there := gone.2.2.1
  rw [← same, left.files, find?_leftOf_of_deleted gone] at there
  contradiction

/-- Recovery harms nothing exactly when it deletes no plain file and no file that a snapshot
of another directory names, the packs it puts back agree, and it leaves nothing to do. -/
theorem recovery_harmless_iff (e : Enumeration) (w : World) :
    Harmless w (finalState (recoverOrReclaimOrphans e) w) ↔ Tame e w := by
  have left := @leaves _ _ e w
  generalize finalState (recoverOrReclaimOrphans e) w = after at left
  constructor
  · intro harmless
    refine ⟨fun dir gone => ?_, fun s listed p named gone => ?_, fun s put descriptors described => ?_,
      fun again => left.idle_iff.mp (harmless.settled again)⟩
    · obtain ⟨⟨d, name, same, _⟩, _⟩ := harmless.spared _ (left.gone gone)
      contradiction
    · have known := listed.imp_right fun put => left.mem_snapshots.mpr (.inr put)
      exact ((harmless.spared p (left.gone gone)).2 s known).2 named
    · obtain ⟨admitted, perm, each⟩ := harmless.added
      have there := perm.subset (left.mem_snapshots.mpr (.inr put))
      have new := (List.mem_append.mp there).resolve_left fun before =>
        orphanDirs_apart put.inOrder.orphaned.1 before rfl
      obtain ⟨others, described', agree⟩ := (each s new).2.1.described
      rw [described.unique described']
      exact agree
  · intro tame
    refine ⟨fun p different => ?_, left.manifest, ?_, fun again => left.idle_iff.mpr (tame.settled again)⟩
    · have gone := left.deleted different
      obtain ⟨_, ⟨dir, ⟨orphan, turned⟩, inside⟩, _⟩ := id gone
      obtain ⟨known, unlisted⟩ := isOrphan_iff.mp (Recovery.mem_orphanDirs.mp orphan).2
      rcases Path.under_iff.mp inside with rfl | ⟨name, rfl⟩
      · exact absurd gone (tame.plain dir)
      refine ⟨⟨dir, name, rfl, known⟩, fun s listed => ?_⟩
      have listed := listed.elim .inl left.mem_snapshots.mp
      refine ⟨?_, fun named => tame.named s listed _ named gone⟩
      exact beq_false_of_ne (listed.elim (unlisted s) (turned s))
    · obtain ⟨admitted, perm, only⟩ := left.listed
      refine ⟨admitted, perm, fun s new => ?_⟩
      have put := (only s).mp new
      refine ⟨fun t listed same => ?_, ?_, fun base delta => ?_⟩
      · exact orphanDirs_apart put.inOrder.orphaned.1 listed (by rw [same])
      · obtain ⟨rebuilt, intact⟩ := Option.filter_eq_some_iff.mp put.inOrder.orphaned.2
        obtain ⟨descriptors, described⟩ := rebuildFromPacks_eq_some.mp rebuilt
        refine ⟨⟨descriptors, described, tame.agreed s put descriptors described⟩,
          fun rank entry there tensor held => ?_⟩
        have ranks := List.all_eq_true.mp intact (rank, entry)
          (Std.ExtTreeMap.mem_toList_iff_getElem?_eq_some.mpr there)
        exact List.all_eq_true.mp ranks tensor held
      · obtain ⟨t, listed, same⟩ := put.inOrder.based delta
        exact ⟨t, left.mem_snapshots.mpr (listed.imp_right fun base => ⟨put.looks, base⟩), same⟩

end

namespace Planted

abbrev serde : SerdeJson := JsonText.serde (fun _ => []) [] [] [] []

/-- A plain file beside the snapshots' directories, named by an identifier. -/
def file : Path := .loose (.uuid 5)

def world : World :=
  { blankWorld with disk := { blankWorld.disk with files := FileStore.empty.put file [1, 2, 3] } }

def recovered : World := @finalState _ _ _ (@recoverOrReclaimOrphans serde Linked.xxh3 inOrder) world

end Planted

/-- A file that lies in no directory of a snapshot, and is of none, is deleted. -/
theorem plain_file_deleted :
    let _ := Linked.xxh3
    let _ := Planted.serde
    ∃ recovered after, recoverOrReclaimOrphans inOrder Planted.world = .ok recovered after ∧
      (Planted.world.disk.files.find? Planted.file).isSome = true ∧
      after.disk.files.find? Planted.file = none ∧ ¬ Harmless Planted.world after := by
  intro xxh3 serde
  have ran : returns (recoverOrReclaimOrphans inOrder) Planted.world = true ∧
      (Planted.world.disk.files.find? Planted.file).isSome = true ∧
      (Planted.recovered.disk.files.find? Planted.file).isNone = true := by
    decide +kernel
  obtain ⟨recovering, present, gone⟩ := ran
  obtain ⟨recovered, recovering⟩ := exists_ok recovering
  have gone := Option.isNone_iff_eq_none.mp gone
  refine ⟨recovered, _, recovering, present, gone, fun harmless => ?_⟩
  obtain ⟨⟨dir, name, inside, _⟩, _⟩ := harmless.spared Planted.file (by
    intro same
    rw [← same] at present
    exact absurd (present.symm.trans (congrArg Option.isSome gone)) Bool.true_eq_false.mp)
  contradiction

end Recovery
end Moonclip
