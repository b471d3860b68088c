import Moonclip.Interleavings
import Moonclip.Lifetimes
import Moonclip.Saves

/-! A store while its threads save, merge and load in any order. What is listed is
there, what is being loaded stays, and so it is on the disk wherever a crash falls. -/
namespace Moonclip
open Library.Effect Library.Files Library.Steps

namespace Merger
variable {m : Manifest} {base : Snapshot} {deltas : List Snapshot} {config : MergerConfig} {ids : List Uuid}

/-- A full merge folds every delta its base has. -/
theorem fullPlan_all (planned : fullPlan m = .ok (.fold base deltas)) :
    ∀ u ∈ m.snapshots, u.baseSnapshotId = some base.id → u.id ∈ deltas.map (·.id) := by
  unfold fullPlan at planned
  split at planned
  · contradiction
  · extract_lets group at planned
    split at planned
    · simp at planned
    · split at planned
      · simp at planned
      · rename_i settled
        obtain ⟨rfl, rfl⟩ := FullPlan.fold.inj (Except.ok.inj planned)
        intro u there delta
        apply List.mem_map_of_mem
        refine List.mem_filter.mpr ⟨there, ?_⟩
        by_contra unfinished
        apply settled
        refine List.any_eq_true.mpr ⟨u, there, ?_⟩
        simpa [delta] using unfinished

/-- The tail of a list is all deltas. -/
theorem delta_of_tail {u : Snapshot} (there : u ∈ tail m) :
    u ∈ m.snapshots ∧ u.baseSnapshotId.isSome = true := by
  let run := m.snapshots.reverse.takeWhile (·.baseSnapshotId.isSome)
  have same : tail m = run.reverse := by
    have taken : run = m.snapshots.reverse.take run.length :=
      List.prefix_iff_eq_take.mp (List.takeWhile_prefix _)
    rw [taken, List.reverse_take, List.reverse_reverse, List.length_reverse]
    rfl
  rw [same, List.mem_reverse] at there
  have delta := List.all_eq_true.mp List.all_takeWhile u there
  exact ⟨List.mem_reverse.mp ((List.takeWhile_prefix _).subset there), delta⟩

/-- A stride merge drops listed deltas, and nothing else. -/
theorem stridePlan_deltas (planned : stridePlan config m = .drop ids) :
    ∀ i ∈ ids, ∃ u ∈ m.snapshots, u.id = i ∧ u.baseSnapshotId.isSome = true := by
  unfold stridePlan at planned
  split at planned
  · contradiction
  · split at planned
    · contradiction
    · split at planned
      · contradiction
      · split at planned
        · contradiction
        · obtain rfl := StridePlan.drop.inj planned
          intro i there
          obtain ⟨u, chosen, rfl⟩ := List.mem_map.mp there
          obtain ⟨listed, delta⟩ := delta_of_tail (List.mem_of_mem_filter chosen)
          exact ⟨u, listed, rfl, delta⟩

end Merger

section
variable [SerdeJson] {drawn : Drawn} {dead coming : Uuid → Prop} {first : Nat} {w w' : World} {s t : Threads}
  {l r : List Snapshot}

/-- What the packs of a snapshot say its ranks are, they hold. -/
theorem Intact.collected {id : Uuid} {shards : RankMap} (intact : Intact drawn dead coming first w)
    (read : Coordinator.collectRankShards w.disk.files id = .ok shards) :
      Standing w.disk.files id shards := by
  obtain ⟨entries, each, rfl⟩ := Library.Outcome.map_eq_ok.mp read
  apply standing_ofList
  intro e there
  obtain ⟨entry, listed, rfl⟩ := List.mem_map.mp there
  obtain ⟨file, present, shard⟩ := Library.Outcome.exists_item (Library.Outcome.mapM_eq_ok.mp each) listed
  obtain ⟨found, pack⟩ := List.mem_filter.mp present
  obtain ⟨_, own⟩ := List.mem_filter.mp found
  obtain ⟨rank, rfl, packed⟩ := intact.packs id file entry pack own shard
  refine ⟨rank, packed, ?_⟩
  by_contra absent
  exact Coordinator.shardOf_absent (by simpa using absent) shard

omit [SerdeJson] in
/-- A save under way keeps its base from whoever claims after it. -/
theorem Saver.Sound.claimed {drawn' : Drawn} {saver : Saver} {ids : List Uuid} {f : InFlight}
    (sound : saver.Sound drawn dead [] w) (more : ∀ d ∈ drawn, d ∈ drawn')
      (unpinned : ∀ i ∈ ids, i ∉ saver.pins)
    (apart : ∀ i, saver.coming = some i → i ∉ ids) (pins : f.pinned = w.inFlight.pinned) :
    saver.Sound drawn' dead ids { w with inFlight := f } := by
  have rooted : ∀ base, (∀ i ∈ (base.map Snapshot.id).toList, i ∈ saver.pins) → Rooted w [] base →
      Rooted { w with inFlight := f } ids base := by
    intro base held root
    refine ⟨root.listed, fun b based claimed => unpinned b.id claimed (held b.id ?_)⟩
    simp [based]
  cases saver with
  | writing id base tensors context lists =>
    cases lists with
    | false => trivial
    | true =>
        exact ⟨sound.1.follows more sound.1.alive (apart id rfl), rooted base (fun _ held => held) sound.2⟩
  | listing id base context entry =>
    obtain ⟨pending, root, wrote⟩ := sound
    exact ⟨pending.follows more pending.alive (apart id rfl), rooted base (fun _ held => held) root, wrote⟩
  | creating id base context => exact Pending.follows sound more sound.alive (apart id rfl)
  | removing r =>
    cases r with
    | waiting doomed => exact sound
    | deleting doomed files =>
      refine ⟨sound.1, sound.2.1, ?_⟩
      rw [pins]
      exact sound.2.2
  | _ => exact sound

namespace Threads.Sound
variable (sound : s.Sound drawn dead first)
include sound

/-- What happens to neither thread. -/
theorem outside (intact : Intact drawn dead s.coming first w') (follows : Follows dead s.world w')
    (flight : w'.inFlight = s.world.inFlight)
    (rooted : ∀ base, Rooted s.world s.merger.claimed base → Rooted w' s.merger.claimed base)
    (lists : ∀ u ∈ w'.manifest.snapshots, (∃ t ∈ s.world.manifest.snapshots, t.kin = u.kin) ∨
      ∀ root ∈ s.merger.claimed, u.baseSnapshotId ≠ some root) :
    After drawn dead first s.world { s with world := w' } where
  follows := follows
  sound.intact := intact
  sound.known := sound.known
  sound.buried := sound.buried
  sound.saver := sound.saver.follows (fun _ gone => gone) follows sound.saving rooted
  sound.merger := sound.merger.follows (fun _ there => there) (fun _ gone => gone) follows
    sound.merging_alive lists
  sound.pins id := by rw [flight]; exact sound.pins id
  sound.claims id := by rw [flight]; exact sound.claims id
  sound.apart := sound.apart

/-- Only pins come and go. -/
theorem flown {f : InFlight} {readers : List (List Uuid)} (doomed : f.doomed = s.world.inFlight.doomed)
    (unread : ∀ id, dead id → s.world.inFlight.pinned id = 0 → f.pinned id = 0)
    (pins : ∀ id, f.pinned id = s.saver.pins.count id + readers.flatten.count id) :
    After drawn dead first s.world
      { s with world := { s.world with inFlight := f }, readers := readers } where
  follows := ⟨fun _ _ _ _ there => there, unread⟩
  sound.intact := sound.intact.flight f
  sound.known := sound.known
  sound.buried := sound.buried
  sound.saver := sound.saver.follows (fun _ gone => gone) ⟨fun _ _ _ _ there => there, unread⟩ sound.saving
    fun _ root => ⟨root.listed, root.free⟩
  sound.merger := sound.merger.follows (fun _ there => there) (fun _ gone => gone)
    ⟨fun _ _ _ _ there => there, unread⟩
    sound.merging_alive fun u there => .inl ⟨u, there, rfl⟩
  sound.pins := pins
  sound.claims id := by
    change id ∈ f.doomed ↔ _
    rw [doomed]
    exact sound.claims id
  sound.apart := sound.apart

/-- A list of the same snapshots, however they are flagged. -/
theorem alike (intact : Intact drawn dead s.coming first w')
    (at_ : At l r s.world.inFlight s.world.disk.files w')
    (kin : l.map Snapshot.kin = s.world.manifest.snapshots.map Snapshot.kin) :
    After drawn dead first s.world { s with world := w' } := by
  apply sound.outside intact at_.follows at_.flight
  · intro base root
    refine ⟨fun b based => ?_, root.free⟩
    obtain ⟨u, listed, own, full⟩ := root.listed b based
    have there : u.kin ∈ l.map Snapshot.kin := kin ▸ List.mem_map_of_mem listed
    obtain ⟨v, present, same⟩ := List.mem_map.mp there
    exact ⟨v, at_.list ▸ present, (congrArg Prod.fst same).trans own, (congrArg Prod.snd same).trans full⟩
  · intro u there
    rw [at_.list] at there
    have kept : u.kin ∈ s.world.manifest.snapshots.map Snapshot.kin := kin ▸ List.mem_map_of_mem there
    exact .inl (List.mem_map.mp kept)

/-- A save or a snapshot without ranks begins: its identifier is a new one, and its base
is listed and no merge's. -/
theorem draws (saver : Saver) {id : Uuid} {step : Nat} {base : Option Snapshot} (new : id ∉ s.drawn)
    (chosen : Coordinator.chooseBase s.world.manifest s.world.inFlight step = base)
    (own : Pending ((id, base.map (·.id)) :: drawn) dead s.merger.claimed id base →
      Rooted s.world s.merger.claimed base → saver.Sound ((id, base.map (·.id)) :: drawn) dead
        s.merger.claimed s.world)
    (comes : saver.coming = some id) (idle : s.saver.pins = [])
      (pins : ∀ i ∈ saver.pins, ∃ b, base = some b ∧ i = b.id) :
    After ((id, base.map (·.id)) :: drawn) dead first s.world
      { s.withFlight (·.pin saver.pins) with saver := saver, drawn := id :: s.drawn } := by
  have fresh : id ∉ drawn.map (·.1) := by
    intro known
    obtain ⟨d, there, rfl⟩ := List.mem_map.mp known
    exact new (sound.known d there)
  have root : Rooted s.world s.merger.claimed base := by
    constructor <;> rintro b rfl
    · obtain ⟨listed, full, _⟩ := Coordinator.chooseBase_eq_some chosen
      exact ⟨b, listed, rfl, (b.isFull_iff.mp full).1⟩
    · obtain ⟨_, _, free⟩ := Coordinator.chooseBase_eq_some chosen
      intro held
      have doomed := (sound.claims b.id).mpr held
      simp [InFlight.isDoomed, doomed] at free
  have pending : Pending ((id, base.map (·.id)) :: drawn) dead s.merger.claimed id base :=
    ⟨by simp, fun gone => new (sound.buried id gone), fun held => new (sound.claimed_drawn id held)⟩
  have follows : Follows dead s.world (s.withFlight (·.pin saver.pins)).world := by
    refine ⟨fun _ _ _ _ there => there, fun i gone unread => ?_⟩
    change s.world.inFlight.pinned i + saver.pins.count i = 0
    rw [unread, Nat.zero_add]
    apply List.count_eq_zero_of_not_mem
    intro held
    obtain ⟨b, based, rfl⟩ := pins i held
    obtain ⟨u, listed, same, _⟩ := root.listed b based
    exact sound.intact.alive u listed (same ▸ gone)
  have more : ∀ d ∈ drawn, d ∈ (id, base.map (·.id)) :: drawn := fun d there => List.mem_cons_of_mem _ there
  have alone : ∀ i, saver.coming = some i → i = id := fun i near => Option.some.inj (near.symm.trans comes)
  constructor
  · constructor
    · apply ((sound.intact.draw fresh).flight _).fewer
      rintro i (near | near)
      · exact .inr (alone i near)
      · exact .inl (.inr near)
    · rintro d there
      rcases List.mem_cons.mp there with rfl | before
      · exact List.mem_cons_self
      · exact List.mem_cons_of_mem _ (sound.known d before)
    · exact fun i gone => List.mem_cons_of_mem _ (sound.buried i gone)
    · refine (own pending root).follows (fun _ gone => gone) follows (fun i near => ?_)
        fun _ root => ⟨root.listed, root.free⟩
      obtain rfl := alone i near
      exact ⟨pending.alive, pending.unclaimed⟩
    · exact sound.merger.follows more (fun _ gone => gone) follows sound.merging_alive
        fun u there => .inl ⟨u, there, rfl⟩
    · intro i
      change s.world.inFlight.pinned i + saver.pins.count i = saver.pins.count i + s.readers.flatten.count i
      rw [sound.pins i, idle, List.count_nil]
      omega
    · exact sound.claims
    · intro i near other
      obtain rfl := alone i near
      exact new (sound.merging i other).2
  · exact follows

section
variable {ids : List Uuid} {f : InFlight}

/-- What a merge may claim: listed, and read by nobody. -/
theorem unpinned (claim : s.world.inFlight.claim ids = some f) : ∀ i ∈ ids, i ∉ s.saver.pins := by
  intro i claimed held
  have unread := (InFlight.claim_eq_some.mp claim).1 i claimed
  rw [sound.pins i] at unread
  have some_ := List.count_pos_iff.mpr held
  omega

theorem claims_of (idle : s.merger = .idle) (claim : s.world.inFlight.claim ids = some f) :
    f.pinned = s.world.inFlight.pinned ∧ ∀ i, i ∈ f.doomed ↔ i ∈ ids := by
  obtain ⟨_, rfl⟩ := InFlight.claim_eq_some.mp claim
  refine ⟨rfl, fun i => ?_⟩
  have none_ : i ∉ s.world.inFlight.doomed := by
    rw [sound.claims i, idle]
    simp [MergeStage.claimed]
  simp [none_]

theorem housed {u : Snapshot} (listed : u ∈ s.world.manifest.snapshots) : u.Housed := by
  intro p named
  rw [Snapshot.filesOf_eq] at named
  exact ((sound.intact.stands u listed).file named).1

theorem inPack {u : Snapshot} (listed : u ∈ s.world.manifest.snapshots) {r : Nat} {entry : RankEntry}
    (there : u.ranks[r]? = some entry) : ∀ e ∈ entry.tensors, e.filename = none := by
  have named := Std.ExtTreeMap.mem_toList_iff_getElem?_eq_some.mpr there
  obtain ⟨_, packed, _⟩ := sound.intact.stands u listed _ named
  exact packed.inPack

theorem listed_drawn {u : Snapshot} (listed : u ∈ s.world.manifest.snapshots) : u.id ∈ s.drawn :=
  sound.known _ (sound.intact.lists.known u listed)

end

/-- A full merge claims a base that nobody saves against, with every delta it has. -/
theorem beginFullMerge {cfg : Config} {mergedId : Uuid} {createdAt : Nat} (idle : s.merger = .idle)
    (new : mergedId ∉ s.drawn) (taken : s.beginFullMerge cfg mergedId createdAt = some t) :
    After ((mergedId, none) :: drawn) dead first s.world t := by
  unfold Threads.beginFullMerge at taken
  split at taken
  · rename_i base deltas planned
    split at taken
    · rename_i last f newest claim
      obtain rfl := Option.some.inj taken
      obtain ⟨pins, claims⟩ := sound.claims_of idle claim
      have unpinned := sound.unpinned claim
      obtain ⟨baseListed, deltasListed⟩ := Merger.fullPlan_group planned
      obtain ⟨full, rooted⟩ := Merger.fullPlan_rooted planned
      have group : ∀ u ∈ deltas ++ [base], u ∈ s.world.manifest.snapshots := by
        intro u there
        rcases List.mem_append.mp there with delta | root
        · exact deltasListed u delta
        · exact List.mem_singleton.mp root ▸ baseListed
      have claimed : ∀ i ∈ base.id :: deltas.map (·.id), ∃ u ∈ s.world.manifest.snapshots, u.id = i := by
        intro i there
        rcases List.mem_cons.mp there with rfl | delta
        · exact ⟨base, baseListed, rfl⟩
        · obtain ⟨d, grouped, rfl⟩ := List.mem_map.mp delta
          exact ⟨d, deltasListed d grouped, rfl⟩
      have fresh : mergedId ∉ drawn.map (·.1) := by
        intro known
        obtain ⟨d, there, rfl⟩ := List.mem_map.mp known
        exact new (sound.known d there)
      have more : ∀ d ∈ drawn, d ∈ (mergedId, none) :: drawn := fun d there => List.mem_cons_of_mem _ there
      refine ⟨⟨?_, ?_, ?_, ?_, ?_, ?_, claims, ?_⟩, ⟨fun _ _ _ _ there => there, fun i _ unread => ?_⟩⟩
      · apply ((sound.intact.draw fresh).flight f).fewer
        rintro i (near | near)
        · exact .inl (.inl near)
        · exact .inr (Option.some.inj near).symm
      · rintro d there
        rcases List.mem_cons.mp there with rfl | before
        · exact List.mem_cons_self
        · exact List.mem_cons_of_mem _ (sound.known d before)
      · exact fun i gone => List.mem_cons_of_mem _ (sound.buried i gone)
      · have own := sound.saver
        rw [idle] at own
        refine own.claimed more unpinned (fun i near held => ?_) pins
        obtain ⟨u, listed, same⟩ := claimed i held
        exact (sound.intact.unlisted i (.inl near)).1 u listed same
      · constructor
        · exact List.mem_cons_self
        · exact fun gone => new (sound.buried mergedId gone)
        · intro held
          obtain ⟨u, listed, rfl⟩ := claimed mergedId held
          exact new (sound.listed_drawn listed)
        · exact fun u there => more _ (sound.intact.lists.known u (group u there))
        · exact full
        · exact rooted
        · exact Merger.fullPlan_all planned
        · exact fun u there => sound.housed (group u there)
        · exact fun u there r entry listed => sound.inPack (group u there) listed
        · exact List.mem_of_getLast? newest
        · simp
      · intro i
        change f.pinned i = _
        rw [pins]
        exact sound.pins i
      · intro i near other
        obtain rfl := Option.some.inj other
        obtain ⟨base, pending⟩ := sound.pending near
        exact new (sound.known _ pending.known)
      · change f.pinned i = 0
        rw [pins, unread]
    · contradiction
  · contradiction

/-- A stride merge drops deltas off which nothing hangs. -/
theorem strideMerge [LawfulSerdeJson] {config : MergerConfig} (idle : s.merger = .idle)
    (taken : s.strideMerge config = some t) : ∃ dead', After drawn dead' first s.world t := by
  unfold Threads.strideMerge at taken
  split at taken
  · rename_i ids planned
    split at taken
    · contradiction
    · rename_i f claim
      obtain ⟨pins, claims⟩ := sound.claims_of idle claim
      have deltas := Merger.stridePlan_deltas planned
      have leaves : ∀ u ∈ s.world.manifest.snapshots, u.baseSnapshotId = none → u.id ∉ ids := by
        intro u listed full held
        obtain ⟨v, present, same, delta⟩ := deltas u.id held
        have kin := sound.kin_of_id (sound.intact.lists.known v present)
          (sound.intact.lists.known u listed) same
        rw [show v.baseSnapshotId = none from (congrArg Prod.snd kin).trans full] at delta
        contradiction
      have lists : Lists drawn (Merger.without ids s.world.manifest.snapshots) := by
        apply sound.intact.lists.without
        intro u there root held delta
        obtain ⟨b, present, rfl, full⟩ := sound.intact.lists.closed u there root delta
        exact absurd held (leaves b present full)
      have listed : ∀ u ∈ Merger.without ids s.world.manifest.snapshots, u ∈ s.world.manifest.snapshots :=
        fun u there => (Merger.mem_without.mp there).1
      have outcome := Merger.publish_intact (sound.intact.flight f) lists
        (fun u there => sound.intact.stands u (listed u there)) (fun u there => .inl ⟨u, listed u there, rfl⟩)
        (fun i (near : s.coming i) =>
          ⟨near, fun u there => (sound.intact.unlisted i near).1 u (listed u there)⟩) _ rfl
      have apart : ∀ i, s.saver.coming = some i → i ∉ ids := by
        intro i near held
        obtain ⟨u, there, same, _⟩ := deltas i held
        exact (sound.intact.unlisted i (.inl near)).1 u there same
      cases ran : Merger.publish (Merger.without ids) { s.world with inFlight := f } with
      | error e w' =>
        rw [ran] at outcome taken
        obtain ⟨intact, left⟩ := outcome
        obtain rfl := Option.some.inj taken
        refine ⟨dead, sound.merge (intact.flight _)
          (fun i near => .inl (near.resolve_right (by simp [MergeStage.coming])))
          (fun _ gone => gone) sound.buried trivial
            ⟨fun p _ _ _ there => left.grown p there, fun i _ unread => ?_⟩
          ?_ ?_ ?_ ?_ ?_⟩
        · change w'.inFlight.pinned i = 0
          rw [left.flight, pins, unread]
        · exact fun i near => ⟨(sound.saving i near).1, by simp [MergeStage.claimed]⟩
        · intro base root
          exact ⟨fun b based => left.list ▸ root.listed b based, by simp [MergeStage.claimed]⟩
        · change w'.inFlight.pinned = s.world.inFlight.pinned
          rw [left.flight, pins]
        · intro i
          change i ∈ (w'.inFlight.unclaim ids).doomed ↔ i ∈ []
          rw [InFlight.mem_doomed_unclaim, left.flight, claims i]
          simp
        · simp [MergeStage.coming]
      | ok _ w' =>
        rw [ran] at outcome taken
        obtain ⟨intact, left⟩ := outcome
        obtain rfl := Option.some.inj taken
        have kept : ∀ u ∈ w'.manifest.snapshots, ¬ (dead u.id ∨ u.id ∈ ids) := by
          rintro u there (old | held)
          · exact intact.alive u there old
          · rw [left.list] at there
            exact (Merger.mem_without.mp there).2 held
        have buried : Intact drawn (fun i => dead i ∨ i ∈ ids) _ first w' :=
          intact.bury (fun _ => .inl) kept (fun h listed => by
            obtain ⟨u, there, same⟩ := left.heads h listed
            exact same ▸ kept u (left.list ▸ there))
        refine ⟨_, sound.merge buried
          (fun i near => .inl (near.resolve_right (by simp [MergeStage.coming]))) (fun _ => .inl)
          ?_ ?_ ⟨fun p _ _ _ there => left.grown p there, fun i _ unread => ?_⟩ ?_ ?_ ?_ ?_ ?_⟩
        · rintro i (old | held)
          · exact sound.buried i old
          · obtain ⟨u, there, rfl, _⟩ := deltas i held
            exact sound.listed_drawn there
        · refine ⟨fun i held => .inr held, fun d gone => .inr ?_, fun d gone =>
            sound.housed (List.mem_of_mem_filter gone)⟩
          simpa using (List.mem_filter.mp gone).2
        · rw [left.flight, pins, unread]
        · intro i near
          exact ⟨fun gone => gone.elim (sound.saving i near).1 (apart i near), apart i near⟩
        · intro base root
          constructor <;> intro b based
          · obtain ⟨u, there, same, full⟩ := root.listed b based
            exact ⟨u, left.list ▸ Merger.mem_without.mpr ⟨there, leaves u there full⟩, same, full⟩
          · obtain ⟨u, there, same, full⟩ := root.listed b based
            exact same ▸ leaves u there full
        · rw [left.flight, pins]
        · intro i
          rw [left.flight, claims i]
          rfl
        · simp [MergeStage.coming]
  · contradiction

/-- A re-read of the record, with no delta in it of a group that is being folded that was not listed. -/
theorem reloads [LawfulSerdeJson] (idle : s.saver = .idle)
    (known : ∀ u ∈ ManifestIo.recorded s.world.disk.files, ∀ root ∈ s.merger.claimed,
      u.baseSnapshotId = some root → ∃ t ∈ s.world.manifest.snapshots, t.id = u.id) :
    After drawn dead first s.world { s with world := finalState Coordinator.reloadManifest s.world } := by
  let left (w : World) : Prop := Intact drawn dead s.coming first w ∧
    ∃ l', At l' (ManifestIo.recorded s.world.disk.files) s.world.inFlight s.world.disk.files w ∧
      (l' = s.world.manifest.snapshots ∨ l'.map Snapshot.bare = ManifestIo.recorded s.world.disk.files)
  have spec : Triple _ Coordinator.reloadManifest (fun _ => left) fun _ => left :=
    Triple.weaken _ Coordinator.reloadManifest_intact (fun _ start => start) (fun _ _ left => left)
      fun _ _ left => ⟨left.1, _, left.2, .inl rfl⟩
  obtain ⟨intact, l', at_, which⟩ := spec.final ⟨sound.intact, At.refl⟩
  have lists : ∀ u ∈ l', (∃ t ∈ s.world.manifest.snapshots, t.kin = u.kin) ∨
      ∀ root ∈ s.merger.claimed, u.baseSnapshotId ≠ some root := by
    intro u there
    rcases which with rfl | same
    · exact .inl ⟨u, there, rfl⟩
    · refine or_iff_not_imp_left.mpr fun unknown root held delta => unknown ?_
      have recorded : u.bare ∈ ManifestIo.recorded s.world.disk.files := same ▸ List.mem_map_of_mem there
      obtain ⟨t, listed, own⟩ := known u.bare recorded root held delta
      have drew := intact.lists.known u (at_.list ▸ there)
      exact ⟨t, listed, sound.kin_of_id (sound.intact.lists.known t listed) drew own⟩
  have after : After drawn dead first s.world
      { s with world := finalState Coordinator.reloadManifest s.world, saver := .idle } := by
    refine sound.save intact (fun i near => .inr (near.resolve_left (by simp [Saver.coming])))
      (fun _ gone => gone)
      sound.buried trivial at_.follows sound.merging_alive
        (fun u there => lists u (at_.list ▸ there)) (fun i => ?_)
      (by rw [at_.flight]) (by simp [Saver.coming])
    rw [at_.flight, sound.pins i, idle]
  rwa [← idle] at after

/-- A rank begins to write against the base its snapshot has. -/
theorem beginsRank {snap : Snapshot} {id : Uuid} {tensors : List TensorData} {context : SnapshotContext}
    (idle : s.saver = .idle) : After drawn dead first s.world
      { s.withFlight (·.pin ((snap.baseSnapshotId.bind s.world.manifest.findSnapshot).map (·.id)).toList) with
        saver := .writing id (snap.baseSnapshotId.bind s.world.manifest.findSnapshot) tensors
          context false } := by
  refine sound.save (sound.intact.flight _) (fun i near => .inr (near.resolve_left (by simp [Saver.coming])))
    (fun _ gone => gone) sound.buried trivial ⟨fun _ _ _ _ there => there, fun i gone unread => ?_⟩
      sound.merging_alive
    (fun u there => .inl ⟨u, there, rfl⟩) (fun i => ?_) rfl (by simp [Saver.coming])
  · change s.world.inFlight.pinned i + List.count i _ = 0
    rw [unread, Nat.zero_add]
    apply List.count_eq_zero_of_not_mem
    intro held
    obtain ⟨b, based, rfl⟩ := Option.map_eq_some_iff.mp (Option.mem_toList.mp held)
    obtain ⟨root, _, found⟩ := Option.bind_eq_some_iff.mp based
    exact sound.intact.alive b (List.mem_of_find?_eq_some found) gone
  · change s.world.inFlight.pinned i + List.count i _ = _
    rw [sound.pins i, idle]
    simp [Saver.pins, Nat.add_comm]

theorem beginsLoad {id : Uuid} {snap : Snapshot} (found : s.world.manifest.findSnapshot id = some snap) :
    After drawn dead first s.world { s.withFlight (·.pin (snap.id :: snap.baseSnapshotId.toList)) with
      readers := (snap.id :: snap.baseSnapshotId.toList) :: s.readers } := by
  have listed : snap ∈ s.world.manifest.snapshots := List.mem_of_find?_eq_some found
  refine @flown _ _ _ _ _ sound (s.world.inFlight.pin _) _ rfl ?_ ?_
  · intro i gone unread
    rw [InFlight.pinned_pin, unread, Nat.zero_add]
    apply List.count_eq_zero_of_not_mem
    intro held
    rcases List.mem_cons.mp held with rfl | base
    · exact sound.intact.alive snap listed gone
    · obtain ⟨b, there, rfl, _⟩ := sound.intact.lists.closed snap listed i (by simpa using base)
      exact sound.intact.alive b there gone
  · intro i
    rw [InFlight.pinned_pin, sound.pins i, List.flatten_cons, List.count_append]
    omega

theorem endsLoad {pins : List Uuid} (held : pins ∈ s.readers) :
    After drawn dead first s.world { s.withFlight (·.unpin pins) with readers := s.readers.erase pins } := by
  refine @flown _ _ _ _ _ sound (s.world.inFlight.unpin _) _ rfl ?_ ?_
  · intro i _ unread
    rw [InFlight.pinned_unpin, unread, Nat.zero_sub]
  · intro i
    have split : s.readers.flatten.count i = pins.count i + (s.readers.erase pins).flatten.count i := by
      have same := (List.perm_cons_erase held).flatten.count_eq i
      rwa [List.flatten_cons, List.count_append] at same
    rw [InFlight.pinned_unpin, sound.pins i, split]
    omega

end Threads.Sound

namespace Threads

/-- What a snapshot without ranks chose as its base is still to be had when it is
listed; a re-read brings back no delta of a group that is being folded. -/
def Undisturbed (s : Threads) : ThreadEvent → Prop
  | .save => ∀ id base context, s.saver = .creating id base context → Rooted s.world s.merger.claimed base
  | .reload => ∀ u ∈ ManifestIo.recorded s.world.disk.files, ∀ root ∈ s.merger.claimed,
      u.baseSnapshotId = some root → ∃ t ∈ s.world.manifest.snapshots, t.id = u.id
  | _ => True

variable [Zstd] [Xxh3] [LawfulSerdeJson] {cfg : Config} {event : ThreadEvent}

theorem Sound.step (sound : s.Sound drawn dead first) (calm : s.Undisturbed event)
    (taken : s.step cfg event = some t) : ∃ drawn' dead', After drawn' dead' first s.world t := by
  cases event with
  | beginSave id tensors context =>
    simp only [Threads.step] at taken
    split at taken
    · contradiction
    · rename_i new
      split at taken
      · rename_i idle
        obtain rfl := Option.some.inj taken
        refine ⟨_, dead, sound.draws (.writing id _ tensors context true) new
          rfl (fun pending root => ⟨pending, root⟩) rfl
          (by rw [idle]; rfl) fun i held => ?_⟩
        obtain ⟨b, based, rfl⟩ := Option.map_eq_some_iff.mp (Option.mem_toList.mp held)
        exact ⟨b, based, rfl⟩
      · contradiction
  | beginCreate id context =>
    simp only [Threads.step] at taken
    split at taken
    · contradiction
    · rename_i new
      split at taken
      · rename_i idle
        obtain rfl := Option.some.inj taken
        refine ⟨_, dead, sound.draws (.creating id _ context) new rfl (fun pending _ => pending)
          rfl (by rw [idle]; rfl)
          (by simp [Saver.pins])⟩
      · contradiction
  | beginRank id tensors =>
    simp only [Threads.step] at taken
    split at taken
    · rename_i snap idle found
      obtain rfl := Option.some.inj taken
      exact ⟨drawn, dead, sound.beginsRank idle⟩
    · contradiction
  | reload =>
    simp only [Threads.step] at taken
    split at taken
    · rename_i idle
      obtain rfl := Option.some.inj taken
      exact ⟨drawn, dead, sound.reloads idle calm⟩
    · contradiction
  | collect id =>
    simp only [Threads.step] at taken
    split at taken
    · rename_i shards idle read
      obtain rfl := Option.some.inj taken
      refine ⟨drawn, dead,
        sound.save sound.intact (fun i near => .inr (near.resolve_left (by simp [Saver.coming])))
        (fun _ gone => gone) sound.buried (fun _ => sound.intact.collected read) .refl sound.merging_alive
        (fun u there => .inl ⟨u, there, rfl⟩) (fun i => ?_) rfl (by simp [Saver.coming])⟩
      rw [sound.pins i, idle]
      rfl
    · contradiction
  | save =>
    obtain ⟨dead', after⟩ := sound.saverStep calm taken
    exact ⟨drawn, dead', after⟩
  | setPinned step pinned =>
    obtain rfl := Option.some.inj taken
    obtain ⟨intact, l', r', at_, kin⟩ := Coordinator.setPinned_intact.final ⟨sound.intact, At.refl⟩
    exact ⟨drawn, dead, sound.alike intact at_ kin⟩
  | otherRank own memory id tensors =>
    obtain rfl := Option.some.inj taken
    let w : World := ⟨s.world.disk, memory.manifest, memory.retainedBase, memory.inFlight⟩
    have left := @Coordinator.saveRank_intact _ drawn dead s.coming first _ _ _ _ s.world _ _
      own id tensors _ w
      sound.intact At.refl rfl
    exact ⟨drawn, dead, sound.alike left.1 left.2 rfl⟩
  | beginLoad id =>
    simp only [Threads.step] at taken
    split at taken
    · contradiction
    · rename_i snap found
      obtain rfl := Option.some.inj taken
      exact ⟨drawn, dead, sound.beginsLoad found⟩
  | endLoad pins =>
    simp only [Threads.step] at taken
    split at taken
    · rename_i held
      obtain rfl := Option.some.inj taken
      exact ⟨drawn, dead, sound.endsLoad held⟩
    · contradiction
  | beginFullMerge id createdAt =>
    simp only [Threads.step] at taken
    split at taken
    · contradiction
    · rename_i new
      split at taken
      · rename_i idle
        exact ⟨_, dead, sound.beginFullMerge idle new taken⟩
      · contradiction
  | strideMerge =>
    simp only [Threads.step] at taken
    split at taken
    · rename_i config idle _
      obtain ⟨dead', after⟩ := sound.strideMerge idle taken
      exact ⟨drawn, dead', after⟩
    · contradiction
  | merge =>
    obtain ⟨dead', after⟩ := sound.mergerStep taken
    exact ⟨drawn, dead', after⟩

/-- Nothing was ever put on the disk, and no thread has begun. -/
structure Fresh (s : Threads) : Prop where
  empty : s.world.disk.files = .empty
  unused : s.world.disk.journal = []
  bounded : ∀ p body, s.world.disk.accepts p body = true → body.length < 2 ^ 64
  unlisted : s.world.manifest.snapshots = []
  unwritten : s.world.manifest.ranksWritten = ∅
  unread : s.world.inFlight = .default
  saver : s.saver = .idle
  readers : s.readers = []
  merger : s.merger = .idle

end Threads

/-- An index that names every snapshot once and every delta with its base, and whose
snapshots can all be listed again, with every file they name. -/
structure ManifestIo.Whole (files : Files) : Prop where
  distinct : Distinct (ManifestIo.recorded files)
  closed : Closed (ManifestIo.recorded files)
  listed : ∀ h ∈ ManifestIo.heads files, ∃ u, ManifestIo.listedAs files h = some u ∧
    ∀ p ∈ u.filesOf none, (files.find? p).isSome = true

theorem ManifestIo.Sane.whole {changes : List (Change Path Bytes)} (sane : ManifestIo.Sane drawn changes) :
    ManifestIo.Whole (replay changes .empty) where
  distinct := sane.lists.distinct
  closed := sane.lists.closed
  listed h named := by
    obtain ⟨u, read, stands⟩ := sane.listed named
    refine ⟨u, read, fun p file => ?_⟩
    rw [Snapshot.filesOf_eq] at file
    exact (stands.file file).2

namespace Threads

/-- The list in memory names every snapshot once, every delta with its base and no file
that is not there; and so does whatever is on the disk if everything stops here, with
any number of the last writes undone. -/
structure Whole (s : Threads) : Prop where
  distinct : Distinct s.world.manifest.snapshots
  closed : Closed s.world.manifest.snapshots
  files : ∀ u ∈ s.world.manifest.snapshots, ∀ p ∈ u.filesOf none, (s.world.disk.files.find? p).isSome = true
  crash : ∀ n, ManifestIo.Whole (replay (s.world.disk.journal.take n) .empty)

variable {start : Threads}

theorem Fresh.sound (fresh : start.Fresh) : start.Sound [] (fun _ => False) 0 := by
  have nothing : ManifestIo.heads start.world.disk.files = [] := by
    rw [fresh.empty]
    rfl
  constructor
  · constructor
    · exact fresh.bounded
    · rw [fresh.empty, fresh.unused]
      rfl
    · exact Nat.zero_le _
    · intro n _
      rw [fresh.unused, List.take_nil]
      exact .empty
    · simp
    · rw [fresh.unlisted]
      exact ⟨by simp [Distinct], by simp [Closed], by simp⟩
    · simp
    · simp [fresh.unlisted]
    · simp [fresh.unwritten]
    · simp [fresh.unlisted]
    · intro id file entry _ _ read
      refine absurd read (Coordinator.shardOf_absent ?_)
      rw [fresh.empty]
      rfl
    · intro id _
      simp [fresh.unlisted, nothing, fresh.unused]
    · simp [fresh.unused]
    · simp
  · simp
  · simp
  · rw [fresh.saver]
    trivial
  · rw [fresh.merger]
    trivial
  · intro id
    rw [fresh.unread, fresh.saver, fresh.readers]
    rfl
  · intro id
    rw [fresh.unread, fresh.merger]
    simp [InFlight.default, MergeStage.claimed]
  · simp [fresh.saver, Saver.coming]

theorem Sound.file (sound : s.Sound drawn dead first) {u : Snapshot}
    (listed : u ∈ s.world.manifest.snapshots) {p : Path}
    (named : p ∈ u.filesOf none) : p.belongsTo u.id = true ∧ (s.world.disk.files.find? p).isSome = true := by
  rw [Snapshot.filesOf_eq] at named
  exact (sound.intact.stands u listed).file named

variable [Zstd] [Xxh3] [LawfulSerdeJson] {cfg : Config}

/-- Whatever the order of steps, the store stays sound. -/
theorem sound_reached (fresh : start.Fresh) (run : Reaches (step cfg) Undisturbed start s) :
    ∃ drawn dead, s.Sound drawn dead 0 := by
  apply run.invariant
  · exact ⟨_, _, fresh.sound⟩
  · rintro s event t ⟨drawn, dead, sound⟩ calm taken
    obtain ⟨drawn', dead', after⟩ := sound.step calm taken
    exact ⟨drawn', dead', after.sound⟩

/-- In any order of the threads' steps, and wherever a crash falls, what is listed is
there, and each delta's base with it. -/
theorem whole_in_any_order (fresh : start.Fresh) (run : Reaches (step cfg) Undisturbed start s) :
    s.Whole := by
  obtain ⟨drawn, dead, sound⟩ := sound_reached fresh run
  constructor
  · exact sound.intact.lists.distinct
  · exact sound.intact.lists.closed
  · exact fun u listed p named => (sound.file listed named).2
  · exact fun n => (sound.intact.always n (Nat.zero_le n)).whole

/-- While a load is under way every file of its snapshot and of its base stays, whatever
is saved, evicted and merged meanwhile. -/
theorem loading_undisturbed (fresh : start.Fresh) (run : Reaches (step cfg) Undisturbed start s)
    {id : Uuid} {snap : Snapshot}
    (found : s.world.manifest.findSnapshot id = some snap)
      (begins : s.step cfg (.beginLoad id) = some t) {u : Threads}
    (later : Reaches (step cfg) (fun v event => v.Undisturbed event ∧
      (snap.id :: snap.baseSnapshotId.toList) ∈ v.readers) t u) {read : Snapshot}
    (which : read ∈ s.world.manifest.snapshots ∧ (read.id = snap.id ∨ snap.baseSnapshotId = some read.id)) :
    ∀ p ∈ read.filesOf none, (u.world.disk.files.find? p).isSome = true := by
  intro p named
  obtain ⟨drawn, dead, sound⟩ := sound_reached fresh run
  obtain ⟨own, there⟩ := sound.file which.1 named
  have pinned : read.id ∈ snap.id :: snap.baseSnapshotId.toList := by
    rcases which.2 with same | base
    · simp [same]
    · simp [base]
  have calm : s.Undisturbed (.beginLoad id) := trivial
  obtain ⟨drawn', dead', after⟩ := sound.step calm begins
  have opened : (∃ drawn dead, t.Sound drawn dead 0) ∧ (t.world.disk.files.find? p).isSome = true := by
    refine ⟨⟨drawn', dead', after.sound⟩, ?_⟩
    simp only [step, found] at begins
    obtain rfl := Option.some.inj begins
    exact there
  refine (later.invariant (fun v => (∃ drawn dead, v.Sound drawn dead 0) ∧
    (v.world.disk.files.find? p).isSome = true)
    opened ?_).2
  rintro v event v' ⟨⟨drawn, dead, sound⟩, there⟩ ⟨calm, reading⟩ taken
  obtain ⟨drawn', dead', after⟩ := sound.step calm taken
  refine ⟨⟨drawn', dead', after.sound⟩, after.follows.files p read.id own (fun _ => ?_) there⟩
  rw [sound.pins read.id]
  have held : read.id ∈ v.readers.flatten := List.mem_flatten.mpr ⟨_, reading, pinned⟩
  have counted := List.count_pos_iff.mpr held
  omega

omit [Zstd] [Xxh3] [LawfulSerdeJson] in
/-- Recorded or not, the new snapshot is on the list. -/
theorem list_listUnfinalized {id : Uuid} {base : Option Snapshot} {context : SnapshotContext} :
    (finalState (Coordinator.listUnfinalized cfg id base context) w).manifest.snapshots =
      w.manifest.snapshots ++ [Coordinator.unfinalized cfg id base context] := by
  let pushed : World := { w with manifest := { w.manifest with
    snapshots := w.manifest.snapshots ++ [Coordinator.unfinalized cfg id base context] } }
  have spec : Triple (fun w' => w' = w) (Coordinator.listUnfinalized cfg id base context)
    (fun _ => Adds pushed)
      fun _ => Adds pushed := by
    apply Triple.bind fun _ w' => w' = pushed
    · exact Triple.modified fun _ start => start ▸ rfl
    · exact fun _ => ManifestIo.persist_adds
  exact (spec.final rfl).list

/-- A snapshot without ranks takes a base under one lock and is listed under another,
and nothing holds the base in between: the list stays closed only if it is still there. -/
theorem createSnapshot_closed_iff (fresh : start.Fresh)
    (run : Reaches (step cfg) Undisturbed start s) {id : Uuid}
    {base : Snapshot} {context : SnapshotContext} (creating : s.saver = .creating id (some base) context)
    (taken : s.step cfg .save = some t) : Closed t.world.manifest.snapshots ↔
      ∃ u ∈ s.world.manifest.snapshots, u.id = base.id ∧ u.baseSnapshotId = none := by
  obtain ⟨drawn, dead, sound⟩ := sound_reached fresh run
  simp only [step, saverStep, creating] at taken
  obtain rfl := Option.some.inj taken
  rw [list_listUnfinalized]
  constructor
  · intro closed
    obtain ⟨u, there, same, full⟩ := closed (Coordinator.unfinalized cfg id (some base) context)
      (by simp) base.id rfl
    rcases List.mem_append.mp there with before | new
    · exact ⟨u, before, same, full⟩
    · obtain rfl := List.mem_singleton.mp new
      simp [Coordinator.unfinalized] at full
  · rintro ⟨b, there, same, full⟩ d listed root delta
    rcases List.mem_append.mp listed with before | new
    · obtain ⟨u, present, rest⟩ := sound.intact.lists.closed d before root delta
      exact ⟨u, List.mem_append_left _ present, rest⟩
    · obtain rfl := List.mem_singleton.mp new
      obtain rfl : base.id = root := Option.some.inj delta
      exact ⟨b, List.mem_append_left _ there, same, full⟩

end Threads
end

namespace Twice

def context : SnapshotContext := ⟨200, 6, ∅⟩

/-- The same tensor again: only that it has not changed is recorded. -/
def rankEntry : RankEntry := Coordinator.rankEntryOf 0 (packPath 8 0)
  [{ Lone.byteEntry with storage := .skipped, offset := 0, compressedSize := 0, hashCompressed := none }]

def snapshot : Snapshot := Coordinator.snapshotOf (plainConfig .none) 8 (some Lone.snapshot) context rankEntry

def manifest : Manifest :=
  { Lone.manifest with snapshots := [Lone.snapshot, snapshot], ranksWritten := {7, 8} }

end Twice

namespace Racing

def context : Merger.MergedContext := Merger.mergedContext 9 6 .none Twice.snapshot 1

def mergedEntry : RankEntry := Merger.mergedRankEntry 0 (packPath 9 0) [⟨Lone.byteEntry, some [1, 2]⟩]

def merged : Snapshot := Merger.mergedSnapshot context [(0, mergedEntry)]

abbrev serde : SerdeJson :=
  JsonText.serde (fun _ => [])
    [ManifestIo.indexOf Lone.manifest, ManifestIo.indexOf Twice.manifest,
      ManifestIo.indexOf { Lone.manifest with snapshots := [merged], ranksWritten := {9} }]
    [⟨7, Lone.snapshot.ranks⟩, ⟨8, Twice.snapshot.ranks⟩, ⟨9, merged.ranks⟩]
    [⟨7, 100, 5, none, ∅, .none, 1, Lone.rankEntry⟩, ⟨8, 200, 6, some 7, ∅, .none, 1, Twice.rankEntry⟩,
      Merger.describeMerged context 1 mergedEntry] []

def blank : Threads := ⟨blankWorld, .idle, [], .idle, []⟩

def saving (id : Uuid) (context : SnapshotContext) : List ThreadEvent :=
  .beginSave id [Lone.byteTensor] context :: List.replicate 5 .save

def saved : List ThreadEvent := saving 7 Lone.context ++ saving 8 Twice.context

/-- None of what could disturb a run. -/
def permits (s : Threads) : ThreadEvent → Bool
  | .save => match s.saver with
    | .creating _ _ _ => false
    | _ => true
  | .reload => false
  | _ => true

def stepped : Threads → ThreadEvent → Option Threads :=
  @Threads.step serde Linked.zstd Linked.xxh3 (plainConfig .none)

/-- The full and its delta are being folded when somebody begins to load the delta. -/
def loading : Option Threads := run stepped permits blank (saved ++ [.beginFullMerge 9 6, .merge])

/-- A snapshot is created against the full, which is then folded. -/
def creating : Option Threads :=
  run stepped permits blank (saved ++ [.beginCreate 10 ⟨300, 7, ∅⟩, .beginFullMerge 9 6, .merge, .merge])

/-- Nobody ends the load of 8 and its base. -/
def reading (s : Threads) (event : ThreadEvent) : Bool := permits s event && s.readers.contains [8, 7]

/-- The load begins, and meanwhile the group is published and its removal given up. -/
def story : Option (Threads × Threads × Threads) := do
  let s ← loading
  let t ← stepped s (.beginLoad 8)
  let u ← run stepped reading t [.merge, .merge]
  return (s, t, u)

def creatingAgainst : Saver → Option Uuid
  | .creating _ base _ => base.map (·.id)
  | _ => none

theorem creatingAgainst_eq_some {saver : Saver} {i : Uuid} (against : creatingAgainst saver = some i) :
    ∃ id base context, saver = .creating id (some base) context ∧ base.id = i := by
  cases saver with
  | creating id base context =>
    obtain ⟨b, rfl, same⟩ := Option.map_eq_some_iff.mp against
    exact ⟨id, b, context, rfl, same⟩
  | _ => simp [creatingAgainst] at against

theorem undisturbed [SerdeJson] {s : Threads} {event : ThreadEvent} (permitted : permits s event = true) :
    s.Undisturbed event := by
  cases event with
  | save =>
    intro id base context creating
    simp [permits, creating] at permitted
  | reload => simp [permits] at permitted
  | _ => trivial

theorem lawful : @LawfulSerdeJson serde :=
  JsonText.serde_lawful _ (by decide +kernel) (by decide +kernel) (by decide +kernel) (by simp)

theorem fresh : blank.Fresh := ⟨rfl, rfl, fun _ _ => of_decide_eq_true, rfl, rfl, rfl, rfl, rfl, rfl⟩

theorem creating_reached : ∃ s, creating = some s ∧ s.world.manifest.snapshots.map (·.id) = [9] ∧
    creatingAgainst s.saver = some 7 ∧
    @Reaches _ _ (@Threads.step serde Linked.zstd Linked.xxh3 (plainConfig .none))
      (@Threads.Undisturbed serde) blank s := by
  have ran : creating.any (fun s => decide (s.world.manifest.snapshots.map (·.id) = [9] ∧
      creatingAgainst s.saver = some 7)) = true := by
    decide +kernel
  obtain ⟨s, reached, ran⟩ := (Option.any_eq_true _ _).mp ran
  obtain ⟨left, against⟩ := of_decide_eq_true ran
  exact ⟨s, reached, left, against, reaches_of_run .refl (fun _ _ => @undisturbed serde _ _) reached⟩

end Racing

/-- A snapshot is being created while the base it chose is folded. -/
theorem Threads.whole_in_any_order_racing :
    let _ := Racing.serde
    ∃ s, Racing.creating = some s ∧ s.world.manifest.snapshots.map (·.id) = [9] ∧ s.Whole := by
  intro serde
  let _ := Linked.zstd
  let _ := Linked.xxh3
  have := Racing.lawful
  obtain ⟨s, reached, left, _, run⟩ := Racing.creating_reached
  exact ⟨s, reached, left, Threads.whole_in_any_order Racing.fresh run⟩

/-- A group is folded while one of it is being loaded. -/
theorem Threads.loading_undisturbed_racing :
    let _ := Racing.serde
    ∃ s t u snap, Racing.story = some (s, t, u) ∧ u.world.manifest.snapshots.map (·.id) = [9] ∧
      s.world.manifest.findSnapshot 8 = some snap ∧
      ∀ p ∈ snap.filesOf none, (u.world.disk.files.find? p).isSome = true := by
  intro serde
  let _ := Linked.zstd
  let _ := Linked.xxh3
  have := Racing.lawful
  have ran : Racing.story.any (fun x => decide (x.2.2.world.manifest.snapshots.map (·.id) = [9] ∧
      (x.1.world.manifest.findSnapshot 8).map Snapshot.kin = some (8, some 7))) = true := by
    decide +kernel
  obtain ⟨⟨s, t, u⟩, told, ran⟩ := (Option.any_eq_true _ _).mp ran
  obtain ⟨left, found⟩ := of_decide_eq_true ran
  obtain ⟨snap, found, kin⟩ := Option.map_eq_some_iff.mp found
  obtain ⟨own, based⟩ := Prod.ext_iff.mp kin
  have parts := told
  simp only [Racing.story, Option.bind_eq_bind, Option.bind_eq_some_iff, Option.pure_def, Option.some.injEq,
    Prod.mk.injEq] at parts
  obtain ⟨s, first, t, begins, u, later, rfl, rfl, rfl⟩ := parts
  have run : Reaches (Threads.step (plainConfig .none)) Threads.Undisturbed Racing.blank s :=
    reaches_of_run .refl (fun _ _ => Racing.undisturbed) first
  have meanwhile : Reaches (Threads.step (plainConfig .none)) (fun v event => v.Undisturbed event ∧
      (snap.id :: snap.baseSnapshotId.toList) ∈ v.readers) t u := by
    refine reaches_of_run .refl (fun v event permitted => ?_) later
    obtain ⟨calm, held⟩ := Bool.and_eq_true_iff.mp permitted
    refine ⟨Racing.undisturbed calm, ?_⟩
    change snap.id = 8 at own
    change snap.baseSnapshotId = some 7 at based
    rw [own, based]
    exact List.contains_iff_mem.mp held
  refine ⟨s, t, u, snap, told, left, found, ?_⟩
  exact Threads.loading_undisturbed Racing.fresh run found begins meanwhile
    ⟨List.mem_of_find?_eq_some found, .inl rfl⟩

/-- The base of a snapshot that is being created has gone: listed, it hangs off nothing. -/
theorem Threads.createSnapshot_closed_iff_racing :
    let _ := Linked.zstd
    let _ := Linked.xxh3
    let _ := Racing.serde
    ∃ s t, Racing.creating = some s ∧ s.step (plainConfig .none) .save = some t ∧
      ¬ Closed t.world.manifest.snapshots := by
  intro zstd xxh3 serde
  have := Racing.lawful
  obtain ⟨s, reached, left, against, run⟩ := Racing.creating_reached
  obtain ⟨id, base, context, creating, same⟩ := Racing.creatingAgainst_eq_some against
  obtain ⟨t, taken⟩ : ∃ t, s.step (plainConfig .none) .save = some t := by
    simp only [Threads.step, Threads.saverStep, creating]
    exact ⟨_, rfl⟩
  refine ⟨s, t, reached, taken, fun closed => ?_⟩
  obtain ⟨u, there, own, _⟩ := (Threads.createSnapshot_closed_iff Racing.fresh run creating taken).mp closed
  have listed : u.id ∈ s.world.manifest.snapshots.map (·.id) := List.mem_map_of_mem there
  rw [left, own, same] at listed
  simp at listed

end Moonclip
