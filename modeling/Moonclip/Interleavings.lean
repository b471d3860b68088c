import Moonclip.Calls
import Moonclip.MergedLoads

/-! Any order of the threads' steps: what each pending save, merge and removal relies on,
and why no other thread's step takes it away. -/
namespace Moonclip
open Library.Effect Library.Files Library.Steps

theorem Storage.finalState_delete {p : Path} {w : World} : finalState (Storage.delete p) w =
    if (w.disk.files.find? p).isSome && w.disk.removes p then
      { w with disk := w.disk.change (.delete p) } else w :=
  rfl

/-- Snapshots that are listed nowhere, with files of their own. -/
structure Gone (dead : Uuid → Prop) (doomed : List Snapshot) : Prop where
  dead : ∀ d ∈ doomed, dead d.id
  housed : ∀ d ∈ doomed, d.Housed

/-- Nobody reads what is being removed. -/
def Removal.Sound (dead : Uuid → Prop) (w : World) : Removal → Prop
  | .waiting doomed => Gone dead doomed
  | .deleting doomed files => Gone dead doomed ∧ (∀ p ∈ files, ∃ d ∈ doomed, p.belongsTo d.id = true) ∧
      ∀ d ∈ doomed, w.inFlight.pinned d.id = 0

/-- An identifier that is about to be listed. -/
structure Pending (drawn : Drawn) (dead : Uuid → Prop) (claimed : List Uuid) (id : Uuid)
    (base : Option Snapshot) :
    Prop where
  known : (id, base.map (·.id)) ∈ drawn
  alive : ¬ dead id
  unclaimed : id ∉ claimed

/-- The base of what is about to be listed: it is listed in full, and no merge has it. -/
structure Rooted (w : World) (claimed : List Uuid) (base : Option Snapshot) : Prop where
  listed : ∀ b, base = some b → ∃ t ∈ w.manifest.snapshots, t.id = b.id ∧ t.baseSnapshotId = none
  free : ∀ b, base = some b → b.id ∉ claimed

/-- The pack of a rank is there. -/
def Wrote (files : Files) (id : Uuid) (entry : RankEntry) : Prop :=
  ∃ rank, entry.Packed id rank ∧ (files.find? (packPath id rank)).isSome = true

def Saver.Sound (drawn : Drawn) (dead : Uuid → Prop) (claimed : List Uuid) (w : World) : Saver → Prop
  | .writing id base _ _ true => Pending drawn dead claimed id base ∧ Rooted w claimed base
  | .listing id base _ entry => Pending drawn dead claimed id base ∧ Rooted w claimed base ∧
      Wrote w.disk.files id entry
  | .creating id base _ => Pending drawn dead claimed id base
  | .finalizing id shards => ¬ dead id → Standing w.disk.files id shards
  | .releasing _ evicted => Gone dead evicted
  | .removing r => r.Sound dead w
  | _ => True

/-- A merge that has written the packs of `ranks`: it folds every delta its base has. -/
structure Folding (drawn : Drawn) (dead : Uuid → Prop) (w : World) (base : Snapshot) (deltas : List Snapshot)
    (last : Snapshot) (id : Uuid) (ranks : List (Nat × RankEntry)) : Prop where
  known : (id, none) ∈ drawn
  alive : ¬ dead id
  unclaimed : id ∉ base.id :: deltas.map (·.id)
  group : ∀ s ∈ deltas ++ [base], s.kin ∈ drawn
  root : base.baseSnapshotId = none
  rooted : ∀ d ∈ deltas, d.baseSnapshotId = some base.id
  all : ∀ s ∈ w.manifest.snapshots, s.baseSnapshotId = some base.id → s.id ∈ deltas.map (·.id)
  housed : ∀ s ∈ deltas ++ [base], s.Housed
  inPack : ∀ s ∈ deltas ++ [base], ∀ (r : Nat) (entry : RankEntry), s.ranks[r]? = some entry →
    ∀ e ∈ entry.tensors, e.filename = none
  newest : last ∈ deltas
  written : ∀ e ∈ ranks, Wrote w.disk.files id e.2

def MergeStage.Sound (drawn : Drawn) (dead : Uuid → Prop) (w : World) : MergeStage → Prop
  | .idle => True
  | .folding base deltas last context _ _ ranks => Folding drawn dead w base deltas last context.id ranks
  | .removing claimed r => (∀ id ∈ claimed, dead id) ∧ r.Sound dead w

/-- What is about to be listed, by either thread. -/
def Threads.coming (s : Threads) (id : Uuid) : Prop := s.saver.coming = some id ∨ s.merger.coming = some id

/-- The store is intact, what each thread relies on is so, and pins and claims are what
the threads hold. -/
structure Threads.Sound [SerdeJson] (drawn : Drawn) (dead : Uuid → Prop) (first : Nat)
    (s : Threads) : Prop where
  intact : Intact drawn dead s.coming first s.world
  known : ∀ d ∈ drawn, d.1 ∈ s.drawn
  buried : ∀ id, dead id → id ∈ s.drawn
  saver : s.saver.Sound drawn dead s.merger.claimed s.world
  merger : s.merger.Sound drawn dead s.world
  pins : ∀ id, s.world.inFlight.pinned id = s.saver.pins.count id + s.readers.flatten.count id
  claims : ∀ id, id ∈ s.world.inFlight.doomed ↔ id ∈ s.merger.claimed
  apart : ∀ id, s.saver.coming = some id → s.merger.coming ≠ some id

/-- A step: files of what is alive stay, and of what is being read; nobody starts to
read what is dead. -/
structure Follows (dead : Uuid → Prop) (w w' : World) : Prop where
  files : ∀ p id, p.belongsTo id = true → (dead id → 0 < w.inFlight.pinned id) →
    (w.disk.files.find? p).isSome = true → (w'.disk.files.find? p).isSome = true
  pins : ∀ id, dead id → w.inFlight.pinned id = 0 → w'.inFlight.pinned id = 0

section
variable {drawn drawn' : Drawn} {dead dead' : Uuid → Prop} {w w' : World} {claimed claimed' : List Uuid}
  {id : Uuid} {base : Option Snapshot}

theorem Gone.mono {doomed : List Snapshot} (gone : Gone dead doomed)
    (more : ∀ id, dead id → dead' id) : Gone dead' doomed :=
  ⟨fun d there => more d.id (gone.dead d there), gone.housed⟩

theorem Removal.Sound.follows {r : Removal} (sound : r.Sound dead w) (more : ∀ id, dead id → dead' id)
    (follows : Follows dead' w w') : r.Sound dead' w' := by
  cases r with
  | waiting doomed => exact Gone.mono sound more
  | deleting doomed files =>
    obtain ⟨gone, own, unread⟩ := sound
    exact ⟨gone.mono more, own, fun d there =>
      follows.pins d.id (more d.id (gone.dead d there)) (unread d there)⟩

theorem Wrote.follows {entry : RankEntry} (wrote : Wrote w.disk.files id entry) (alive : ¬ dead' id)
    (follows : Follows dead' w w') : Wrote w'.disk.files id entry := by
  obtain ⟨rank, packed, there⟩ := wrote
  exact ⟨rank, packed, follows.files _ id (by simp) (fun gone => absurd gone alive) there⟩

theorem Standing.follows {ranks : RankMap} (stands : Standing w.disk.files id ranks) (alive : ¬ dead' id)
    (follows : Follows dead' w w') : Standing w'.disk.files id ranks := by
  intro e listed
  obtain ⟨rank, packed, there⟩ := stands e listed
  exact ⟨rank, packed, follows.files _ id (by simp) (fun gone => absurd gone alive) there⟩

theorem Pending.follows (pending : Pending drawn dead claimed id base) (more : ∀ d ∈ drawn, d ∈ drawn')
    (alive : ¬ dead' id) (unclaimed : id ∉ claimed') : Pending drawn' dead' claimed' id base :=
  ⟨more _ pending.known, alive, unclaimed⟩

/-- The merger's step leaves a pending save what it relies on. -/
theorem Saver.Sound.follows {saver : Saver} (sound : saver.Sound drawn dead claimed w)
    (more : ∀ id, dead id → dead' id) (follows : Follows dead' w w')
    (alive : ∀ id, saver.coming = some id → ¬ dead' id ∧ id ∉ claimed')
    (rooted : ∀ base, Rooted w claimed base → Rooted w' claimed' base) :
      saver.Sound drawn dead' claimed' w' := by
  cases saver with
  | idle => trivial
  | writing id base tensors context lists =>
    cases lists with
    | false => trivial
    | true =>
      obtain ⟨pending, root⟩ := sound
      obtain ⟨still, apart⟩ := alive id rfl
      exact ⟨pending.follows (fun _ there => there) still apart, rooted base root⟩
  | listing id base context entry =>
    obtain ⟨pending, root, wrote⟩ := sound
    obtain ⟨still, apart⟩ := alive id rfl
    exact ⟨pending.follows (fun _ there => there) still apart, rooted base root, wrote.follows still follows⟩
  | creating id base context =>
    obtain ⟨still, apart⟩ := alive id rfl
    exact Pending.follows sound (fun _ there => there) still apart
  | finalizing id shards =>
    intro still
    exact (sound fun old => still (more id old)).follows still follows
  | releasing pins evicted => exact Gone.mono sound more
  | removing r => exact Removal.Sound.follows sound more follows

/-- The saver's step leaves a pending merge what it relies on. -/
theorem MergeStage.Sound.follows {merger : MergeStage} (sound : merger.Sound drawn dead w)
    (further : ∀ d ∈ drawn, d ∈ drawn') (more : ∀ id, dead id → dead' id) (follows : Follows dead' w w')
    (alive : ∀ id, merger.coming = some id → ¬ dead' id)
    (lists : ∀ s ∈ w'.manifest.snapshots, (∃ t ∈ w.manifest.snapshots, t.kin = s.kin) ∨
      ∀ root ∈ merger.claimed, s.baseSnapshotId ≠ some root) : merger.Sound drawn' dead' w' := by
  cases merger with
  | idle => trivial
  | folding base deltas last context worldSize todo ranks =>
    have still := alive context.id rfl
    refine { sound with
      known := further _ sound.known, alive := still, group := fun s listed =>
        further _ (sound.group s listed)
      all := fun s listed delta => ?_, written := fun e there =>
        (sound.written e there).follows still follows }
    rcases lists s listed with ⟨t, there, kin⟩ | other
    · have same : t.id = s.id := congrArg Prod.fst kin
      exact same ▸ sound.all t there ((congrArg Prod.snd kin).trans delta)
    · exact absurd delta (other base.id (by simp [MergeStage.claimed]))
  | removing claimed r =>
    exact ⟨fun id there => more id (sound.1 id there), sound.2.follows more follows⟩

end

section
variable [SerdeJson] {drawn : Drawn} {dead dead' coming : Uuid → Prop} {first : Nat}
  {w w' : World} {s t : Threads}
  {l r : List Snapshot} {f : InFlight}

omit [SerdeJson] in
theorem Follows.refl : Follows dead w w := ⟨fun _ _ _ _ there => there, fun _ _ unread => unread⟩

/-- No file goes, and nobody begins to read. -/
theorem At.follows (at_ : At l r w.inFlight w.disk.files w') : Follows dead w w' where
  files p _ _ _ there := at_.grown p there
  pins id _ unread := by rw [at_.flight, unread]

omit [SerdeJson] in
/-- The files an unlink goes through lie with what it removes. -/
theorem Gone.unlinkFiles {doomed : List Snapshot} (gone : Gone dead doomed) :
    ∀ p ∈ Coordinator.unlinkFiles doomed, ∃ d ∈ doomed, p.belongsTo d.id = true := by
  intro p listed
  obtain ⟨d, there, named⟩ := List.mem_flatMap.mp listed
  refine ⟨d, there, ?_⟩
  rcases List.mem_append.mp named with file | ranks
  · exact gone.housed d there p file
  · obtain rfl := List.mem_singleton.mp ranks
    simp

/-- What a step of an unlink leaves. -/
structure Removes (drawn : Drawn) (dead coming : Uuid → Prop) (first : Nat) (w : World)
    (out : World × Option Removal) : Prop where
  intact : Intact drawn dead coming first out.1
  manifest : out.1.manifest = w.manifest
  flight : out.1.inFlight = w.inFlight
  follows : Follows dead w out.1
  sound : ∀ r, out.2 = some r → r.Sound dead out.1

theorem Removal.Sound.next {r : Removal} (sound : r.Sound dead w)
    (intact : Intact drawn dead coming first w) :
    Removes drawn dead coming first w (r.next w) := by
  cases r with
  | waiting doomed =>
    simp only [Removal.next]
    split
    · exact ⟨intact, rfl, rfl, .refl, by simp⟩
    · rename_i unread
      refine ⟨intact, rfl, rfl, .refl, ?_⟩
      rintro r made
      obtain rfl := Option.some.inj made
      refine ⟨sound, Gone.unlinkFiles sound, fun d there => ?_⟩
      have none_ := InFlight.anyPinned_eq_false.mp (by simpa using unread)
      exact none_ d.id (List.mem_map_of_mem there)
  | deleting doomed files =>
    obtain ⟨gone, own, unread⟩ := sound
    cases files with
    | nil => exact ⟨intact, rfl, rfl, .refl, by simp [Removal.next]⟩
    | cons p rest =>
      obtain ⟨d, there, mine⟩ := own p (by simp)
      have later : ∀ q ∈ rest, ∃ d ∈ doomed, q.belongsTo d.id = true := fun q listed =>
        own q (by simp [listed])
      simp only [Removal.next, Storage.finalState_delete]
      split
      · refine ⟨intact.delete mine (gone.dead d there), rfl, rfl, ⟨fun q id other held found => ?_, ?_⟩, ?_⟩
        · have apart : q ≠ p := by
            rintro rfl
            obtain rfl := Path.belongsTo_unique mine other
            have read := held (gone.dead d there)
            rw [unread d there] at read
            exact Nat.lt_irrefl 0 read
          rw [Disk.files_change, Change.apply, FileStore.find?_delete_of_ne apart]
          exact found
        · exact fun _ _ none_ => none_
        · rintro r made
          obtain rfl := Option.some.inj made
          exact ⟨gone, later, unread⟩
      · refine ⟨intact, rfl, rfl, .refl, ?_⟩
        rintro r made
        obtain rfl := Option.some.inj made
        exact ⟨gone, later, unread⟩

namespace Merger

omit [SerdeJson] in
theorem mem_without {ids : List Uuid} {v : Snapshot} : v ∈ without ids l ↔ v ∈ l ∧ v.id ∉ ids := by
  simp [without]

omit [SerdeJson] in
theorem mem_folded {group : List Uuid} {merged v : Snapshot} :
    v ∈ folded group merged l ↔ (v ∈ l ∧ v.id ∉ group) ∨ v = merged := by
  rw [folded, List.mem_insertionSort, List.mem_append, List.mem_singleton, mem_without]

end Merger

omit [SerdeJson] in
/-- Deltas may go while nothing hangs off them. -/
theorem Lists.without {ids : List Uuid} (lists : Lists drawn l)
    (leaves : ∀ u ∈ l, ∀ root ∈ ids, u.baseSnapshotId = some root → u.id ∈ ids) :
      Lists drawn (Merger.without ids l) where
  distinct := lists.distinct.sublist List.filter_sublist
  closed d listed base delta := by
    obtain ⟨there, kept⟩ := Merger.mem_without.mp listed
    obtain ⟨b, present, rfl, full⟩ := lists.closed d there base delta
    refine ⟨b, Merger.mem_without.mpr ⟨present, fun gone => kept ?_⟩, rfl, full⟩
    exact leaves d there b.id gone delta
  known u listed := lists.known u (Merger.mem_without.mp listed).1

omit [SerdeJson] in
theorem Lists.perm {l' : List Snapshot} (lists : Lists drawn l) (same : l'.Perm l) : Lists drawn l' where
  distinct := (same.map _).nodup_iff.mpr lists.distinct
  closed d listed base delta := by
    obtain ⟨b, there, rest⟩ := lists.closed d (same.mem_iff.mp listed) base delta
    exact ⟨b, same.mem_iff.mpr there, rest⟩
  known u listed := lists.known u (same.mem_iff.mp listed)

/-- Everything is sound after a step, and the step was an orderly one. -/
structure Threads.After (drawn : Drawn) (dead : Uuid → Prop) (first : Nat) (w : World)
    (t : Threads) : Prop where
  sound : t.Sound drawn dead first
  follows : Follows dead w t.world

namespace Threads.Sound

/-- What holds after a step of the saver's. -/
theorem save {saver : Saver} (sound : s.Sound drawn dead first)
    (intact : Intact drawn dead' coming first w')
    (covers : ∀ id, saver.coming = some id ∨ s.merger.coming = some id → coming id)
    (more : ∀ id, dead id → dead' id) (buried : ∀ id, dead' id → id ∈ s.drawn)
    (own : saver.Sound drawn dead' s.merger.claimed w') (follows : Follows dead' s.world w')
    (alive : ∀ id, s.merger.coming = some id → ¬ dead' id)
    (lists : ∀ u ∈ w'.manifest.snapshots, (∃ t ∈ s.world.manifest.snapshots, t.kin = u.kin) ∨
      ∀ root ∈ s.merger.claimed, u.baseSnapshotId ≠ some root)
    (pins : ∀ id, w'.inFlight.pinned id = saver.pins.count id + s.readers.flatten.count id)
    (claims : w'.inFlight.doomed = s.world.inFlight.doomed)
    (same : ∀ id, saver.coming = some id → s.saver.coming = some id) :
    After drawn dead' first s.world { s with world := w', saver := saver } where
  follows := follows
  sound.intact := intact.fewer covers
  sound.known := sound.known
  sound.buried := buried
  sound.saver := own
  sound.merger := sound.merger.follows (fun _ there => there) more follows alive lists
  sound.pins := pins
  sound.claims id := by rw [claims]; exact sound.claims id
  sound.apart id near := sound.apart id (same id near)

/-- What holds after a step of the merger's. -/
theorem merge {merger : MergeStage} (sound : s.Sound drawn dead first)
    (intact : Intact drawn dead' coming first w')
    (covers : ∀ id, s.saver.coming = some id ∨ merger.coming = some id → coming id)
    (more : ∀ id, dead id → dead' id) (buried : ∀ id, dead' id → id ∈ s.drawn)
    (own : merger.Sound drawn dead' w') (follows : Follows dead' s.world w')
    (alive : ∀ id, s.saver.coming = some id → ¬ dead' id ∧ id ∉ merger.claimed)
    (rooted : ∀ base, Rooted s.world s.merger.claimed base → Rooted w' merger.claimed base)
    (pins : w'.inFlight.pinned = s.world.inFlight.pinned)
    (claims : ∀ id, id ∈ w'.inFlight.doomed ↔ id ∈ merger.claimed)
    (same : ∀ id, merger.coming = some id → s.merger.coming = some id) :
    After drawn dead' first s.world { s with world := w', merger := merger } where
  follows := follows
  sound.intact := intact.fewer covers
  sound.known := sound.known
  sound.buried := buried
  sound.saver := sound.saver.follows more follows alive rooted
  sound.merger := own
  sound.pins id := by rw [pins]; exact sound.pins id
  sound.claims := claims
  sound.apart id near other := sound.apart id near (same id other)

section
variable (sound : s.Sound drawn dead first)
include sound

/-- What a merge is about to list is nobody else's. -/
theorem merging : ∀ id, s.merger.coming = some id → ¬ dead id ∧ id ∈ s.drawn := by
  intro id near
  have own := sound.merger
  cases at_ : s.merger with
  | idle => simp [at_, MergeStage.coming] at near
  | folding base deltas last context worldSize todo ranks =>
    rw [at_] at own near
    obtain rfl := Option.some.inj near
    exact ⟨own.alive, sound.known _ own.known⟩
  | removing claimed r => simp [at_, MergeStage.coming] at near

theorem merging_alive : ∀ id, s.merger.coming = some id → ¬ dead id := fun id near =>
    (sound.merging id near).1

/-- What a merge has claimed was drawn long before. -/
theorem claimed_drawn : ∀ id ∈ s.merger.claimed, id ∈ s.drawn := by
  intro id held
  have own := sound.merger
  cases at_ : s.merger with
  | idle => simp [at_, MergeStage.claimed] at held
  | folding base deltas last context worldSize todo ranks =>
    rw [at_] at own held
    have grouped : ∃ s ∈ deltas ++ [base], s.id = id := by
      rcases List.mem_cons.mp held with rfl | delta
      · exact ⟨base, by simp, rfl⟩
      · obtain ⟨d, there, rfl⟩ := List.mem_map.mp delta
        exact ⟨d, by simp [there], rfl⟩
    obtain ⟨u, there, rfl⟩ := grouped
    exact sound.known _ (own.group u there)
  | removing claimed r =>
    rw [at_] at own held
    exact sound.buried id (own.1 id held)

/-- A snapshot is drawn once, against one base. -/
theorem kin_of_id {u v : Snapshot} (one : u.kin ∈ drawn) (two : v.kin ∈ drawn)
    (same : u.id = v.id) : u.kin = v.kin :=
  List.inj_on_of_nodup_map sound.intact.keyed one two same

/-- A list was settled and some of it evicted: neither thread loses what it relies on. -/
theorem retired {saver : Saver} {evicted : List Snapshot}
    (retains : Coordinator.Retains drawn dead coming first l s.world.inFlight s.world.disk.files evicted w')
    (covers : ∀ id, s.merger.coming = some id → coming id)
    (made : ∀ v ∈ l, (∃ t ∈ s.world.manifest.snapshots, t.kin = v.kin) ∨ v.kin ∈ drawn ∧
      s.merger.coming ≠ some v.id ∧ ∀ root ∈ s.merger.claimed, v.baseSnapshotId ≠ some root)
    (own : Gone (Coordinator.Retired dead evicted) evicted →
      saver.Sound drawn (Coordinator.Retired dead evicted) s.merger.claimed w')
    (pins : saver.pins = s.saver.pins) (settled : saver.coming = none) :
    After drawn (Coordinator.Retired dead evicted) first s.world { s with world := w', saver := saver } := by
  obtain ⟨intact, ⟨l', r', at_, among⟩, gone, housed⟩ := retains
  have drew : ∀ v ∈ l, v.kin ∈ drawn := by
    intro v listed
    rcases made v listed with ⟨t, there, same⟩ | new
    · exact same ▸ sound.intact.lists.known t there
    · exact new.1
  apply sound.save intact (fun id near => covers id (near.resolve_left (by simp [settled]))) (fun _ => .inl)
  · rintro id (old | ⟨d, there, rfl⟩)
    · exact sound.buried id old
    · obtain ⟨v, listed, same, _⟩ := gone d there
      exact same ▸ sound.known _ (drew v listed)
  · exact own ⟨fun d there => .inr ⟨d, there, rfl⟩, housed⟩
  · exact at_.follows
  · rintro id near (old | ⟨d, there, rfl⟩)
    · exact sound.merging_alive id near old
    · obtain ⟨v, listed, same, _⟩ := gone d there
      rcases made v listed with ⟨t, present, kin⟩ | ⟨_, apart, _⟩
      · have unlisted := (sound.intact.unlisted d.id (.inr near)).1 t present
        exact unlisted ((congrArg Prod.fst kin).trans same)
      · exact apart (same ▸ near)
  · intro u there
    rw [at_.list] at there
    obtain ⟨v, listed, same, _⟩ := among u there
    have known := intact.lists.known u (at_.list ▸ there)
    have kin := sound.kin_of_id (drew v listed) known same
    rcases made v listed with ⟨t, present, alike⟩ | ⟨_, _, free⟩
    · exact .inl ⟨t, present, alike.trans kin⟩
    · exact .inr fun root held delta => free root held ((congrArg Prod.snd kin).trans delta)
  · intro id
    rw [at_.flight, pins]
    exact sound.pins id
  · rw [at_.flight]
  · simp [settled]

end

section
variable {id : Uuid} {base : Option Snapshot} {tensors : List TensorData} {context : SnapshotContext}

/-- The saver's step left the list alone. -/
theorem settle {saver : Saver} (sound : s.Sound drawn dead first)
    (intact : Intact drawn dead s.coming first w')
    (at_ : At s.world.manifest.snapshots r s.world.inFlight s.world.disk.files w')
    (own : saver.Sound drawn dead s.merger.claimed w') (pins : saver.pins = s.saver.pins)
    (same : ∀ i, saver.coming = some i → s.saver.coming = some i) :
    After drawn dead first s.world { s with world := w', saver := saver } := by
  apply sound.save intact (fun i near => near.imp_left (same i)) (fun _ gone => gone)
    sound.buried own at_.follows
    sound.merging_alive (fun u there => .inl ⟨u, at_.list ▸ there, rfl⟩) _ (by rw [at_.flight]) same
  intro i
  rw [at_.flight, pins]
  exact sound.pins i

/-- The saver's identifier is no more the merger's once it is listed. -/
theorem settled (sound : s.Sound drawn dead first) (mine : s.saver.coming = some id) :
    ∀ i, s.merger.coming = some i → s.coming i ∧ i ≠ id := by
  intro i near
  refine ⟨.inr near, ?_⟩
  rintro rfl
  exact sound.apart i mine near

/-- A save's snapshot joins the list: it is none of a merge's group. -/
theorem joins (sound : s.Sound drawn dead first) (mine : s.saver.coming = some id)
    (pending : Pending drawn dead s.merger.claimed id base)
      (root : Rooted s.world s.merger.claimed base) {v : Snapshot}
    (kin : v.kin = (id, base.map (·.id))) : ∀ u ∈ s.world.manifest.snapshots ++ [v],
      (∃ t ∈ s.world.manifest.snapshots, t.kin = u.kin) ∨ u.kin ∈ drawn ∧
        s.merger.coming ≠ some u.id ∧ ∀ root ∈ s.merger.claimed, u.baseSnapshotId ≠ some root := by
  intro u there
  rcases List.mem_append.mp there with before | new
  · exact .inl ⟨u, before, rfl⟩
  · obtain rfl := List.mem_singleton.mp new
    obtain ⟨rfl, based⟩ := Prod.ext_iff.mp kin
    refine .inr ⟨kin ▸ pending.known, sound.apart _ mine, fun claimed held delta => ?_⟩
    obtain ⟨b, same, rfl⟩ := Option.map_eq_some_iff.mp (based.symm.trans delta)
    exact root.free b same held

/-- What a pending save is about to list is nobody else's. -/
theorem pending (sound : s.Sound drawn dead first) (mine : s.saver.coming = some id) :
    ∃ base, Pending drawn dead s.merger.claimed id base := by
  have own := sound.saver
  cases at_ : s.saver with
  | writing id' base tensors context lists =>
    rw [at_] at own mine
    cases lists with
    | false => simp [Saver.coming] at mine
    | true =>
      obtain rfl := Option.some.inj mine
      exact ⟨base, own.1⟩
  | listing id' base context entry =>
    rw [at_] at own mine
    obtain rfl := Option.some.inj mine
    exact ⟨base, own.1⟩
  | creating id' base context =>
    rw [at_] at own mine
    obtain rfl := Option.some.inj mine
    exact ⟨base, own⟩
  | _ => simp [at_, Saver.coming] at mine

theorem saving (sound : s.Sound drawn dead first) : ∀ id, s.saver.coming = some id → ¬ dead id ∧
    id ∉ s.merger.claimed := by
  intro id mine
  obtain ⟨base, pending⟩ := sound.pending mine
  exact ⟨pending.alive, pending.unclaimed⟩

/-- The merger lets go of what it claimed. -/
theorem quit (sound : s.Sound drawn dead first) (intact : Intact drawn dead coming first w')
    (covers : ∀ i, s.saver.coming = some i → coming i)
    (list : w'.manifest.snapshots = s.world.manifest.snapshots) (flight : w'.inFlight = s.world.inFlight)
    (follows : Follows dead s.world w') : After drawn dead first s.world
      { { s with world := w' }.withFlight (·.unclaim s.merger.claimed) with merger := .idle } := by
  refine sound.merge (intact.flight _)
    (fun i near => covers i (near.resolve_right (by simp [MergeStage.coming])))
    (fun _ gone => gone) sound.buried trivial ?_ ?_ ?_ ?_ ?_ ?_
  · exact ⟨follows.files, follows.pins⟩
  · exact fun i near => ⟨(sound.saving i near).1, by simp [MergeStage.claimed]⟩
  · intro base root
    exact ⟨fun b same => list ▸ root.listed b same, by simp [MergeStage.claimed]⟩
  · change w'.inFlight.pinned = s.world.inFlight.pinned
    rw [flight]
  · intro i
    change i ∈ (w'.inFlight.unclaim s.merger.claimed).doomed ↔ i ∈ []
    rw [InFlight.mem_doomed_unclaim, flight, sound.claims i]
    simp
  · simp [MergeStage.coming]

/-- Whatever hangs off a group that is being folded is in it. -/
theorem folding_leaves (sound : s.Sound drawn dead first) {base last : Snapshot}
    {deltas : List Snapshot} {id : Uuid}
    {ranks : List (Nat × RankEntry)} (own : Folding drawn dead s.world base deltas last id ranks) :
    ∀ u ∈ s.world.manifest.snapshots, ∀ root ∈ deltas.map (·.id) ++ [base.id], u.baseSnapshotId = some root →
      u.id ∈ deltas.map (·.id) ++ [base.id] := by
  intro u there root held delta
  rcases List.mem_append.mp held with leaf | full
  · obtain ⟨d, grouped, rfl⟩ := List.mem_map.mp leaf
    obtain ⟨b, present, same, full⟩ := sound.intact.lists.closed u there d.id delta
    have kin := sound.kin_of_id (sound.intact.lists.known b present) (own.group d (by simp [grouped])) same
    have none_ : d.baseSnapshotId = none := (congrArg Prod.snd kin).symm.trans full
    rw [own.rooted d grouped] at none_
    contradiction
  · obtain rfl := List.mem_singleton.mp full
    exact List.mem_append_left _ (own.all u there delta)

variable [Zstd] [Xxh3] [LawfulSerdeJson] {cfg : Config}

theorem writing {lists : Bool} (sound : s.Sound drawn dead first)
    (at_ : s.saver = .writing id base tensors context lists) (taken : s.saverStep cfg = some t) :
    After drawn dead first s.world t := by
  have own := sound.saver
  rw [at_] at own
  have nothing : Gone dead [] := ⟨by simp, by simp⟩
  have outcome :=
    (@Coordinator.saveRankTensors_intact _ drawn dead s.coming first _ _ _ _ _ _ cfg id base tensors
    context _) s.world ⟨sound.intact, At.refl⟩
  simp only [saverStep, at_] at taken
  cases ran : Coordinator.saveRankTensors cfg id base tensors context s.world with
  | error e w' =>
    rw [ran] at outcome taken
    obtain ⟨put, left⟩ := outcome
    obtain rfl := Option.some.inj taken
    exact sound.settle put left nothing (by rw [at_]; rfl) (by simp [Saver.coming])
  | ok entry w' =>
    rw [ran] at outcome taken
    obtain ⟨put, left, packed, there⟩ := outcome
    obtain rfl := Option.some.inj taken
    cases lists with
    | true =>
      obtain ⟨pending, root⟩ := own
      have listed : Saver.Sound drawn dead s.merger.claimed w' (.listing id base context entry) := by
        refine ⟨pending, ⟨fun b same => ?_, root.free⟩, cfg.rank, packed, there⟩
        rw [left.list]
        exact root.listed b same
      exact sound.settle put left listed (by rw [at_]; rfl) fun i same => at_ ▸ same
    | false => exact sound.settle put left nothing (by rw [at_]; rfl) (by simp [Saver.coming])

theorem listing {entry : RankEntry} (sound : s.Sound drawn dead first)
    (at_ : s.saver = .listing id base context entry)
    (taken : s.saverStep cfg = some t) : ∃ dead', After drawn dead' first s.world t := by
  have own := sound.saver
  rw [at_] at own
  obtain ⟨pending, root, packed⟩ := own
  have mine : s.saver.coming = some id := at_ ▸ rfl
  have joins := sound.joins mine pending root (v := Coordinator.snapshotOf cfg id base context entry) rfl
  have spec : Triple _ (Coordinator.listSaved cfg id base context entry) _ _ :=
    Coordinator.listSaved_retains sound.intact
    (.inl mine) pending.alive pending.known root.listed (sound.settled mine) packed
  have outcome := spec s.world rfl
  simp only [saverStep, at_] at taken
  cases ran : Coordinator.listSaved cfg id base context entry s.world with
  | ok evicted w' =>
    rw [ran] at outcome taken
    obtain rfl := Option.some.inj taken
    exact ⟨_, sound.retired outcome (fun _ near => near) joins (fun gone => gone) (by rw [at_]; rfl) rfl⟩
  | error e w' =>
    rw [ran] at outcome taken
    obtain rfl := Option.some.inj taken
    exact ⟨_, sound.retired outcome (fun _ near => near) joins (fun gone => gone) (by rw [at_]; rfl) rfl⟩

theorem creating (sound : s.Sound drawn dead first) (at_ : s.saver = .creating id base context)
    (root : Rooted s.world s.merger.claimed base) (taken : s.saverStep cfg = some t) :
      After drawn dead first s.world t := by
  have pending : Pending drawn dead s.merger.claimed id base := by
    have own := sound.saver
    rwa [at_] at own
  have mine : s.saver.coming = some id := at_ ▸ rfl
  have spec : Triple _ (Coordinator.listUnfinalized cfg id base context) _ _ :=
    Coordinator.listUnfinalized_intact
    sound.intact (.inl mine) pending.alive pending.known root.listed (sound.settled mine)
  have outcome := spec.final rfl
  simp only [saverStep, at_] at taken
  obtain rfl := Option.some.inj taken
  obtain ⟨intact, r', left⟩ := outcome
  have joins := sound.joins mine pending root (v := Coordinator.unfinalized cfg id base context) rfl
  apply sound.save intact
  · exact fun i near => near.resolve_left (by simp [Saver.coming])
  · exact fun _ gone => gone
  · exact sound.buried
  · trivial
  · exact left.follows
  · exact sound.merging_alive
  · intro u there
    rw [left.list] at there
    exact (joins u there).imp_right fun new => new.2.2
  · intro i
    rw [left.flight, sound.pins i, at_]
    rfl
  · rw [left.flight]
  · simp [Saver.coming]

theorem finalizing {shards : RankMap} (sound : s.Sound drawn dead first)
    (at_ : s.saver = .finalizing id shards)
    (taken : s.saverStep cfg = some t) : ∃ dead', After drawn dead' first s.world t := by
  have own := sound.saver
  rw [at_] at own
  have intact : Intact drawn dead (fun i => s.merger.coming = some i) first s.world :=
    sound.intact.fewer fun i => .inr
  have spec : Triple _ (Coordinator.listFinalized cfg id shards) _ _ :=
    Coordinator.listFinalized_retains intact
    fun ⟨u, listed, same⟩ => own (same ▸ sound.intact.alive u listed)
  have outcome := spec s.world rfl
  have known {l : List Snapshot} (kin : l.map Snapshot.kin = s.world.manifest.snapshots.map Snapshot.kin) :
      ∀ v ∈ l, ∃ t ∈ s.world.manifest.snapshots, t.kin = v.kin := by
    intro v listed
    have there : v.kin ∈ s.world.manifest.snapshots.map Snapshot.kin := kin ▸ List.mem_map_of_mem listed
    exact List.mem_map.mp there
  simp only [saverStep, at_] at taken
  cases ran : Coordinator.listFinalized cfg id shards s.world with
  | ok evicted w' =>
    rw [ran] at outcome taken
    obtain ⟨l, kin, retains⟩ := outcome
    obtain rfl := Option.some.inj taken
    exact ⟨_, sound.retired retains (fun _ near => near) (fun v listed => .inl (known kin v listed))
      (fun gone => gone)
      (by rw [at_]; rfl) rfl⟩
  | error e w' =>
    rw [ran] at outcome taken
    obtain ⟨l, kin, retains⟩ := outcome
    obtain rfl := Option.some.inj taken
    exact ⟨_, sound.retired retains (fun _ near => near) (fun v listed => .inl (known kin v listed))
      (fun _ => trivial)
      (by rw [at_]; rfl) rfl⟩

/-- The saver's own step. A `create_snapshot` lists what it chose its base for some time
ago: that the base is still there is up to the run. -/
theorem saverStep (sound : s.Sound drawn dead first)
    (kept : ∀ id base context, s.saver = .creating id base context → Rooted s.world s.merger.claimed base)
    (taken : s.saverStep cfg = some t) : ∃ dead', After drawn dead' first s.world t := by
  have own := sound.saver
  cases at_ : s.saver with
  | idle => simp [Threads.saverStep, at_] at taken
  | writing id base tensors context lists => exact ⟨dead, sound.writing at_ taken⟩
  | listing id base context entry => exact sound.listing at_ taken
  | creating id base context => exact ⟨dead, sound.creating at_ (kept id base context at_) taken⟩
  | finalizing id shards => exact sound.finalizing at_ taken
  | releasing pins evicted =>
    rw [at_] at own
    simp only [Threads.saverStep, at_] at taken
    obtain rfl := Option.some.inj taken
    refine ⟨dead, sound.save (sound.intact.flight _)
      (fun i near => .inr (near.resolve_left (by simp [Saver.coming])))
      (fun _ gone => gone) sound.buried own ⟨fun _ _ _ _ there => there, fun i _ unread => ?_⟩
        sound.merging_alive
      (fun u there => .inl ⟨u, there, rfl⟩) (fun i => ?_) rfl (by simp [Saver.coming])⟩
    · change s.world.inFlight.pinned i - pins.count i = 0
      rw [unread, Nat.zero_sub]
    · have held := sound.pins i
      simp only [at_, Saver.pins] at held
      change s.world.inFlight.pinned i - pins.count i = [].count i + s.readers.flatten.count i
      simp [held]
  | removing removal =>
    rw [at_] at own
    simp only [Threads.saverStep, at_] at taken
    obtain rfl := Option.some.inj taken
    have removes := own.next sound.intact
    refine ⟨dead, sound.save removes.intact (fun i near => .inr (near.resolve_left ?_))
      (fun _ gone => gone) sound.buried
      ?_ removes.follows sound.merging_alive
        (fun u there => .inl ⟨u, removes.manifest ▸ there, rfl⟩) (fun i => ?_)
      (by rw [removes.flight]) ?_⟩
    · cases (removal.next s.world).2 <;> simp [Saver.coming]
    · cases left : (removal.next s.world).2 with
      | none => trivial
      | some later => exact removes.sound later left
    · have held := sound.pins i
      rw [removes.flight, held, at_]
      cases (removal.next s.world).2 <;> rfl
    · cases (removal.next s.world).2 <;> simp [Saver.coming]

section
variable {base last : Snapshot} {deltas : List Snapshot} {context : Merger.MergedContext} {worldSize : Nat}
  {ranks : List (Nat × RankEntry)}

theorem foldingRank {rank : Nat} {todo : List Nat} (sound : s.Sound drawn dead first)
    (at_ : s.merger = .folding base deltas last context worldSize (rank :: todo) ranks)
    (taken : s.mergerStep = some t) : After drawn dead first s.world t := by
  have own := sound.merger
  rw [at_] at own
  have inPack : ∀ source sourceRank, Merger.sourceOf base last rank = some (source, sourceRank) →
      ∀ e ∈ sourceRank.tensors, e.filename = none := by
    intro source sourceRank found
    obtain ⟨which, there⟩ := Merger.sourceOf_eq found
    apply own.inPack source _ rank sourceRank there
    rcases which with rfl | rfl
    · simp [own.newest]
    · simp
  have claimed : s.merger.claimed = base.id :: deltas.map (·.id) := by rw [at_]; rfl
  have outcome :=
    (@Merger.mergeRank_intact _ drawn dead s.coming first _ _ _ _ _ _ base last context worldSize rank _
    inPack) s.world ⟨sound.intact, At.refl⟩
  simp only [mergerStep, at_] at taken
  cases ran : Merger.mergeRank base last context worldSize rank s.world with
  | error e w' =>
    rw [ran] at outcome taken
    obtain ⟨intact, left⟩ := outcome
    obtain rfl := Option.some.inj taken
    have quit := sound.quit intact (fun _ near => .inl near) left.list left.flight left.follows
    rwa [at_] at quit
  | ok entry w' =>
    rw [ran] at outcome taken
    obtain ⟨intact, left, packed⟩ := outcome
    obtain rfl := Option.some.inj taken
    have follows : Follows dead s.world w' := left.follows
    have later : Folding drawn dead w' base deltas last context.id (ranks ++ entry.toList) := by
      refine { own with all := ?_, written := ?_ }
      · rw [left.list]
        exact own.all
      · intro e there
        rcases List.mem_append.mp there with before | now
        · exact (own.written e before).follows own.alive follows
        · exact ⟨rank, packed e now⟩
    refine sound.merge intact (fun i near => near.imp_right fun same => at_ ▸ same)
      (fun _ gone => gone) sound.buried later
      follows ?_ ?_ ?_ ?_ ?_
    · exact fun i near => ⟨(sound.saving i near).1, fun held => (sound.saving i near).2 (claimed ▸ held)⟩
    · intro base' root
      exact ⟨fun b same => left.list ▸ root.listed b same, fun b same held =>
        root.free b same (claimed ▸ held)⟩
    · rw [left.flight]
    · intro i
      rw [left.flight, sound.claims i, at_]
      rfl
    · exact fun i same => at_ ▸ same

/-- The group is folded: what it was goes, and nothing listed hangs off it. -/
theorem publishing (sound : s.Sound drawn dead first)
    (at_ : s.merger = .folding base deltas last context worldSize [] ranks) (taken : s.mergerStep = some t) :
    ∃ dead', After drawn dead' first s.world t := by
  have own := sound.merger
  rw [at_] at own
  have claimed : s.merger.claimed = base.id :: deltas.map (·.id) := by rw [at_]; rfl
  have mine : s.merger.coming = some context.id := by rw [at_]; rfl
  have fresh := sound.intact.unlisted context.id (.inr mine)
  let group := deltas.map (·.id) ++ [base.id]
  let edit := Merger.folded group (Merger.mergedSnapshot context ranks)
  have mem : ∀ u, u ∈ edit s.world.manifest.snapshots ↔
      (u ∈ s.world.manifest.snapshots ∧ u.id ∉ group) ∨ u = Merger.mergedSnapshot context ranks :=
    fun u => Merger.mem_folded
  have grouped : ∀ i, i ∈ group ↔ i ∈ s.merger.claimed := by
    intro i
    simp [group, claimed, or_comm]
  have lists : Lists drawn (edit s.world.manifest.snapshots) := by
    have left := sound.intact.lists.without (sound.folding_leaves own)
    have pushed : Lists drawn (_ ++ [Merger.mergedSnapshot context ranks]) :=
      left.push own.known (fun u there => fresh.1 u (Merger.mem_without.mp there).1)
        (by simp [Merger.mergedSnapshot])
    exact pushed.perm (List.perm_insertionSort _ _)
  have stands : ∀ u ∈ edit s.world.manifest.snapshots, Standing s.world.disk.files u.id u.ranks := by
    intro u there
    rcases (mem u).mp there with ⟨listed, _⟩ | rfl
    · exact sound.intact.stands u listed
    · exact standing_ofList own.written
  have within : ∀ u ∈ edit s.world.manifest.snapshots,
      (∃ v ∈ s.world.manifest.snapshots, v.id = u.id) ∨ s.coming u.id ∧ ¬ dead u.id := by
    intro u there
    rcases (mem u).mp there with ⟨listed, _⟩ | rfl
    · exact .inl ⟨u, listed, rfl⟩
    · exact .inr ⟨.inr mine, own.alive⟩
  have fewer : ∀ i, s.saver.coming = some i → s.coming i ∧
    ∀ u ∈ edit s.world.manifest.snapshots, u.id ≠ i := by
    intro i near
    refine ⟨.inl near, fun u there => ?_⟩
    rcases (mem u).mp there with ⟨listed, _⟩ | rfl
    · exact (sound.intact.unlisted i (.inl near)).1 u listed
    · rintro rfl
      exact sound.apart _ near mine
  have outcome := Merger.publish_intact sound.intact lists stands within fewer s.world rfl
  simp only [mergerStep, at_] at taken
  cases ran : Merger.publish edit s.world with
  | error e w' =>
    rw [ran] at outcome taken
    obtain ⟨intact, left⟩ := outcome
    obtain rfl := Option.some.inj taken
    have quit := sound.quit intact (fun _ near => near) left.list left.flight left.follows
    rw [at_] at quit
    exact ⟨dead, quit⟩
  | ok _ w' =>
    rw [ran] at outcome taken
    obtain ⟨intact, left⟩ := outcome
    obtain rfl := Option.some.inj taken
    have kept : ∀ u ∈ w'.manifest.snapshots, ¬ (dead u.id ∨ u.id ∈ s.merger.claimed) := by
      rintro u there (old | held)
      · exact intact.alive u there old
      · rw [left.list] at there
        rcases (mem u).mp there with ⟨_, apart⟩ | rfl
        · exact apart ((grouped u.id).mpr held)
        · exact own.unclaimed (claimed ▸ held)
    have buried : Intact drawn (fun i => dead i ∨ i ∈ s.merger.claimed) _ first w' :=
      intact.bury (fun _ => .inl) kept (fun h listed => by
        obtain ⟨u, there, same⟩ := left.heads h listed
        exact same ▸ kept u (left.list ▸ there))
    rw [← at_]
    refine ⟨_, sound.merge buried (fun i near => near.resolve_right (by simp [MergeStage.coming]))
      (fun _ => .inl) ?_ ?_ ?_
      ?_ ?_ ?_ ?_ ?_⟩
    · rintro i (old | held)
      · exact sound.buried i old
      · exact sound.claimed_drawn i held
    · refine ⟨fun i held => .inr held, fun d there => .inr ?_, own.housed⟩
      rw [← grouped]
      rcases List.mem_append.mp there with delta | full
      · exact List.mem_append_left _ (List.mem_map_of_mem delta)
      · obtain rfl := List.mem_singleton.mp full
        simp [group]
    · exact left.follows
    · intro i near
      obtain ⟨alive, apart⟩ := sound.saving i near
      exact ⟨fun gone => gone.elim alive apart, apart⟩
    · intro base' root
      refine ⟨fun b same => ?_, root.free⟩
      obtain ⟨u, listed, own, full⟩ := root.listed b same
      refine ⟨u, left.list ▸ (mem u).mpr (.inl ⟨listed, fun held => ?_⟩), own, full⟩
      exact root.free b same (own ▸ (grouped u.id).mp held)
    · rw [left.flight]
    · intro i
      rw [left.flight]
      exact sound.claims i
    · simp [MergeStage.coming]

omit [LawfulSerdeJson] in
theorem unlinking {claimed : List Uuid} {removal : Removal} (sound : s.Sound drawn dead first)
    (at_ : s.merger = .removing claimed removal) (taken : s.mergerStep = some t) :
      After drawn dead first s.world t := by
  have own := sound.merger
  rw [at_] at own
  have same : s.merger.claimed = claimed := by rw [at_]; rfl
  have removes := own.2.next sound.intact
  simp only [mergerStep, at_] at taken
  split at taken
  · rename_i w' later ran
    rw [ran] at removes
    obtain rfl := Option.some.inj taken
    refine sound.merge removes.intact (fun i near => .inl (near.resolve_right (by simp [MergeStage.coming])))
      (fun _ gone => gone) sound.buried ⟨own.1, removes.sound later rfl⟩ removes.follows ?_ ?_ ?_ ?_ ?_
    · exact fun i near => ⟨(sound.saving i near).1, fun held => (sound.saving i near).2 (same ▸ held)⟩
    · intro base root
      refine ⟨fun b based => ?_, fun b based held => root.free b based (same ▸ held)⟩
      rw [removes.manifest]
      exact root.listed b based
    · rw [removes.flight]
    · intro i
      rw [removes.flight, sound.claims i, same]
      rfl
    · simp [MergeStage.coming]
  · rename_i w' ran
    rw [ran] at removes
    obtain rfl := Option.some.inj taken
    have quit := sound.quit removes.intact (fun _ near => .inl near)
      (congrArg Manifest.snapshots removes.manifest)
      removes.flight removes.follows
    rwa [same] at quit

/-- The merger's own step. -/
theorem mergerStep (sound : s.Sound drawn dead first) (taken : s.mergerStep = some t) :
    ∃ dead', After drawn dead' first s.world t := by
  cases at_ : s.merger with
  | idle => simp [Threads.mergerStep, at_] at taken
  | folding base deltas last context worldSize todo ranks =>
    cases todo with
    | nil => exact sound.publishing at_ taken
    | cons rank todo => exact ⟨dead, sound.foldingRank at_ taken⟩
  | removing claimed removal => exact ⟨dead, sound.unlinking at_ taken⟩

end
end

end Threads.Sound
end
end Moonclip
