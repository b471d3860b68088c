import Moonclip.Deliveries

/-! A service that does what is documented, over a line that may lose requests and
answers: what a written object comes to, and what is left of the uploads it took. -/
namespace Moonclip
open Library.Effect Library.Files Library.Requests Library.Substrings

namespace S3

namespace Service

/-- A name longer than any in use. -/
def unusedId (b : Bucket) : String :=
  String.ofList (List.replicate ((b.pending ++ b.past).foldr (fun u n => max u.id.length n) 0 + 1) 'u')

def naming (id : String) : String :=
  String.ofList (openTag "UploadId" ++ ((escapeXml id).toList ++ closeTag "UploadId"))

/-- The parts held under these numbers. -/
def offered (b : Bucket) (u : Upload) (numbers : List Nat) : List ((String × String) × Bytes) :=
  numbers.filterMap fun i => (b.parts u (toString (i + 1))).map fun p => ((toString (i + 1), p.2), p.1)

/-- The parts a completion lists, if they are the first so many of those held. -/
def listed (b : Bucket) (u : Upload) (completion_ : Bytes) : Option (List ((String × String) × Bytes)) :=
  ((List.range (maxParts + 1)).map fun k => offered b u (List.range k)).find? fun ps =>
    decide (completion_ = textBytes (completion (ps.map Prod.fst)) ∧
      ∀ p ∈ ps.map Prod.fst, '<' ∉ p.1.toList ∧ '<' ∉ p.2.toList)

def accepted (text : String) : Response := ⟨200, some "0", .ok text⟩
def missing : Response := ⟨404, none, .ok ""⟩

def serve (b : Bucket) (r : Request) : Bucket × Response :=
  match r with
  | ⟨.put, key, some data, []⟩ => (b.write key data, accepted "")
  | ⟨.put, key, some data, [("partNumber", number), ("uploadId", id)]⟩ =>
    if ⟨key, id⟩ ∈ b.pending then (b.hold ⟨key, id⟩ number data "0", accepted "") else (b, missing)
  | ⟨.post, key, none, [("uploads", "")]⟩ => (b.start ⟨key, unusedId b⟩, accepted (naming (unusedId b)))
  | ⟨.post, key, some text, [("uploadId", id)]⟩ =>
    if ⟨key, id⟩ ∈ b.pending then
      match listed b ⟨key, id⟩ text with
      | some ps => ((b.write key (ps.map Prod.snd).flatten).close ⟨key, id⟩, accepted "")
      | none => (b, missing)
    else (b, missing)
  | ⟨.delete, key, none, [("uploadId", id)]⟩ =>
    if ⟨key, id⟩ ∈ b.pending then (b.close ⟨key, id⟩, accepted "") else (b, missing)
  | _ => (b, missing)

/-- What the line does to a request: nothing, or it loses the request, or the answer; or
the service is too busy. -/
inductive Weather where
  | fair
  | lost
  | busy
  | unheard
deriving DecidableEq

@[reducible] def network (weather : Nat → Weather) : Network where
  fate n r b :=
    match weather n with
    | .fair => ((serve b r).1, .response (serve b r).2)
    | .lost => (b, .transport "reset")
    | .busy => (b, .response ⟨503, none, .ok "SlowDown"⟩)
    | .unheard => ((serve b r).1, .transport "timed out")

section
variable {b : Bucket} {u : Upload} {r : Request}

theorem length_unusedId (there : u ∈ b.pending ++ b.past) : u.id.length < (unusedId b).length := by
  have most : ∀ us : List Upload, u ∈ us → u.id.length ≤ us.foldr (fun u n => max u.id.length n) 0 := by
    intro us there
    induction us with
    | nil => contradiction
    | cons v us ih =>
      rw [List.foldr_cons]
      rcases List.mem_cons.mp there with rfl | later
      · exact Nat.le_max_left _ _
      · exact (ih later).trans (Nat.le_max_right _ _)
  rw [unusedId, String.length_ofList, List.length_replicate]
  exact Nat.lt_succ_of_le (most _ there)

theorem not_mem_of_longer {key id : String} (longer : (unusedId b).length ≤ id.length) :
    ⟨key, id⟩ ∉ b.pending ++ b.past := by
  intro there
  have shorter := length_unusedId there
  change id.length < _ at shorter
  omega

theorem unusedId_unknown {key : String} : ⟨key, unusedId b⟩ ∉ b.pending ∧ ⟨key, unusedId b⟩ ∉ b.past := by
  have unused := @not_mem_of_longer b key (unusedId b) le_rfl
  rwa [List.mem_append, not_or] at unused

theorem encloses_naming {id : String} : Encloses (naming id) "UploadId" id := by
  refine ⟨[], [], ?_, ?_⟩
  · intro v suffix occurs
    rw [List.suffix_nil.mp suffix] at occurs
    exact absurd (List.prefix_nil.mp occurs) (by decide)
  · rw [naming, String.toList_ofList, List.nil_append, List.append_nil]

theorem clear_naming {id : String} : hasError (naming id) = false := by
  have mark : Headed '<' (openTag "Error") := ⟨_, rfl, by decide⟩
  have opens : Headed '<' (openTag "UploadId") := ⟨_, rfl, by decide⟩
  have closes : Headed '<' (closeTag "UploadId") := ⟨_, rfl, by decide⟩
  have clear : Clear (openTag "Error") (naming id).toList := by
    rw [clear_iff mark.ne_nil, naming, String.toList_ofList, free_append, free_append]
    exact ⟨mark.free_word opens (by decide) (by decide), mark.free_of_notMem notMem_escapeXml,
      mark.free_word closes (by decide) (by decide)⟩
  rw [hasError, cut_clear mark.ne_nil clear]
  rfl

theorem held_offered {numbers : List Nat} : List.Forall₂ (fun p data => b.parts u p.1 = some (data, p.2))
    ((offered b u numbers).map Prod.fst) ((offered b u numbers).map Prod.snd) := by
  rw [List.forall₂_map_left_iff, List.forall₂_map_right_iff, List.forall₂_same]
  intro p there
  obtain ⟨i, _, spelled⟩ := List.mem_filterMap.mp there
  obtain ⟨part, held, rfl⟩ := Option.map_eq_some_iff.mp spelled
  exact held

/-- Parts that are held under these numbers are what is offered. -/
theorem offered_eq {numbers : List Nat} {parts : List (String × String)} {bodies : List Bytes}
    (held : List.Forall₂ (fun p data => b.parts u p.1 = some (data, p.2)) parts bodies)
    (numbered : parts.map Prod.fst = numbers.map fun i => toString (i + 1)) :
    (offered b u numbers).map Prod.fst = parts := by
  induction held generalizing numbers with
  | nil =>
    obtain rfl : numbers = [] := by simpa using numbered.symm
    rfl
  | @cons p data parts bodies first rest ih =>
    cases numbers with
    | nil => simp at numbered
    | cons i numbers =>
      rw [List.map_cons, List.map_cons, List.cons.injEq] at numbered
      obtain ⟨own, others⟩ := numbered
      rw [own] at first
      have one : offered b u (i :: numbers) = ((toString (i + 1), p.2), data) :: offered b u numbers := by
        rw [offered, List.filterMap_cons, first]
        rfl
      rw [one, List.map_cons, ih others]
      exact congrArg (· :: parts) (Prod.ext own.symm rfl)

theorem listed_some {text : Bytes} {ps : List ((String × String) × Bytes)}
    (found : listed b u text = some ps) :
    text = textBytes (completion (ps.map Prod.fst)) ∧
      (∀ p ∈ ps.map Prod.fst, '<' ∉ p.1.toList ∧ '<' ∉ p.2.toList) ∧
      List.Forall₂ (fun p data => b.parts u p.1 = some (data, p.2)) (ps.map Prod.fst) (ps.map Prod.snd) := by
  rw [listed] at found
  have lists := List.find?_some found
  have there := List.mem_of_find?_eq_some found
  rw [decide_eq_true_eq] at lists
  rw [List.mem_map] at there
  obtain ⟨k, within, rfl⟩ := there
  obtain ⟨tells, plain⟩ := lists
  exact ⟨tells, plain, held_offered⟩

theorem exists_listed {parts : List (String × String)} {bodies : List Bytes} (few : parts.length ≤ maxParts)
    (numbered : parts.map Prod.fst = (List.range parts.length).map fun i => toString (i + 1))
    (plain : ∀ p ∈ parts, '<' ∉ p.1.toList ∧ '<' ∉ p.2.toList)
    (held : List.Forall₂ (fun p data => b.parts u p.1 = some (data, p.2)) parts bodies) :
    ∃ ps, listed b u (textBytes (completion parts)) = some ps := by
  apply Option.isSome_iff_exists.mp
  rw [listed, List.find?_isSome]
  refine ⟨offered b u (List.range parts.length), List.mem_map_of_mem (List.mem_range.mpr (by omega)), ?_⟩
  rw [decide_eq_true_eq, offered_eq held numbered]
  exact ⟨rfl, plain⟩

theorem not_missing {key : String} {resp : Response} {P : Prop}
    (answered : (Answer.response missing).result key = .ok resp) : P := by
  contradiction

theorem serve_effect : (serve b r).1 = b ∨ Carries r b (serve b r).1 := by
  unfold serve
  split
  · exact .inr .write
  · split
    · rename_i pending
      exact .inr (.hold pending (by decide))
    · exact .inl rfl
  · exact .inr (.start unusedId_unknown)
  · split
    · rename_i pending
      split
      · rename_i found
        obtain ⟨tells, plain, held⟩ := listed_some found
        exact .inr (.complete pending tells plain held)
      · exact .inl rfl
    · exact .inl rfl
  · split
    · rename_i pending
      exact .inr (.abort pending)
    · exact .inl rfl
  · exact .inl rfl

theorem serve_confirmed {resp : Response}
    (answered : (Answer.response (serve b r).2).result r.key = .ok resp) :
    Confirms r b (serve b r).1 resp := by
  revert answered
  unfold serve
  split
  · exact fun _ => .write .write
  · split
    · rename_i pending
      intro answered
      obtain rfl := Except.ok.inj answered
      exact .hold pending (by decide) fun tag named => (Option.some.inj named).symm
    · intro answered
      contradiction
  · intro answered
    obtain rfl := Except.ok.inj answered
    refine .start unusedId_unknown fun text told => ?_
    obtain rfl := Except.ok.inj told
    exact encloses_naming
  · split
    · rename_i pending
      split
      · rename_i found
        obtain ⟨tells, plain, held⟩ := listed_some found
        exact fun _ => .complete (.complete pending tells plain held)
      · exact not_missing
    · exact not_missing
  · exact fun _ => .abort
  · intro answered
    contradiction

theorem serve_answers (acceptable : Acceptable r b) :
    ∃ resp, (Answer.response (serve b r).2).result r.key = .ok resp ∧ resp.Legible r := by
  have plain : ∀ r : Request, (accepted "").Legible r :=
    fun _ => ⟨⟨"", rfl, by decide⟩, fun _ => ⟨"0", rfl⟩⟩
  cases acceptable with
  | write => exact ⟨_, rfl, plain _⟩
  | start => exact ⟨_, rfl, ⟨_, rfl, clear_naming⟩, fun _ => ⟨"0", rfl⟩⟩
  | hold pending =>
    refine ⟨accepted "", ?_, plain _⟩
    simp only [serve, putPart, if_pos pending]
    rfl
  | complete pending _ few numbered clear held =>
    obtain ⟨ps, found⟩ := exists_listed few numbered clear held
    refine ⟨accepted "", ?_, plain _⟩
    simp only [serve, completeUpload, if_pos pending, found]
    rfl
  | abort pending =>
    refine ⟨accepted "", ?_, plain _⟩
    simp only [serve, abortUpload, if_pos pending]
    rfl

end

theorem documented (weather : Nat → Weather) : @Documented (network weather) := by
  refine @Documented.mk (network weather) ?_ ?_
  · intro n r b
    simp only [Network.fate]
    cases weather n with
    | fair | unheard => exact serve_effect
    | lost | busy => exact .inl rfl
  · intro n r b resp answered
    simp only [Network.fate] at answered ⊢
    cases heard : weather n with
    | fair =>
      rw [heard] at answered
      exact serve_confirmed answered
    | lost | busy | unheard =>
      rw [heard] at answered
      contradiction

/-- A line that loses no answer, and of any three requests one gets through. -/
theorem prompt {weather : Nat → Weather} (heard : ∀ n, weather n ≠ .unheard)
    (soon : ∀ n, ∃ k < maxAttempts, weather (n + k) = .fair) :
    @Prompt (network weather) fun n => weather n = .fair := by
  refine @Prompt.mk (network weather) _ ?_ ?_ soon
  · intro n fair r b acceptable
    have served : (network weather).fate n r b = ((serve b r).1, .response (serve b r).2) := by
      simp only [Network.fate, fair]
    obtain ⟨resp, answered, legible⟩ := serve_answers acceptable
    exact ⟨_, _, resp, served, answered, serve_confirmed answered, legible⟩
  · intro n unfair r b
    cases bad : weather n with
    | fair => exact absurd bad unfair
    | lost => exact ⟨.transport "reset", by simp only [Network.fate, bad], .inl ⟨_, rfl⟩⟩
    | busy =>
      exact ⟨.response ⟨503, none, .ok "SlowDown"⟩, by simp only [Network.fate, bad],
        .inr ⟨_, rfl, by decide⟩⟩
    | unheard => exact absurd bad (heard n)

/-- The first request is lost, the second comes at a bad time. -/
abbrev gusty : Nat → Weather
  | 0 => .lost
  | 1 => .busy
  | _ => .fair

/-- Nothing is stored yet; someone else is sending. -/
abbrev shared : Bucket := ⟨.empty, [⟨"other", "1"⟩], [], fun _ _ => none⟩

end Service

section
open Service
variable [Network] [Documented] {key : String} {data : Bytes} {config : S3Config}
  {relPath : String} {u : Upload}
  {lost : List Upload} {s₀ s₁ s : Session}

omit [Network] [Documented] in
/-- Writing the same again changes nothing more. -/
theorem write_write {b : Bucket} : (b.write key data).write key data = b.write key data := by
  have there : key ∈ (b.objects.put key data).names := (b.objects.put key data).mem_names.mpr (by simp)
  have same : (b.objects.put key data).put key data = b.objects.put key data := by
    rw [FileStore.put, FileStore.mk.injEq]
    refine ⟨if_pos there, ?_⟩
    funext k
    by_cases own : k = key
    · rw [if_pos own, own, FileStore.find?_put_self]
    · rw [if_neg own]
  rw [Bucket.write, Bucket.write, same]

theorem putObject_spec : Triple (fun s => s = s₀) (doRequest (putObject key data))
    (fun _ s => s.far = s₀.far.write key data) fun _ s => s.far = s₀.far ∨ s.far = s₀.far.write key data := by
  refine Triple.weaken (fun s => s.far = s₀.far ∨ s.far = s₀.far.write key data)
    (doRequest_spec ?_ ?_ fun s either => either)
    (by rintro s rfl; exact .inl rfl) (fun _ _ returned => returned) fun _ _ raised => raised
  · intro s far resp either confirmed _
    rw [confirms_putObject confirmed]
    rcases either with same | written
    · rw [same]
    · rw [written, write_write]
  · intro s far either effect
    rcases effect with rfl | carried
    · exact either
    · rw [carries_putObject carried]
      rcases either with same | written
      · exact .inr (by rw [same])
      · exact .inr (by rw [written, write_write])

omit [Network] [Documented] in
theorem Opened.objects (opened : Opened key s₀ lost s) : s.far.objects = s₀.far.objects := by
  rw [opened.far]

omit [Network] [Documented] in
theorem Failed.objects (opened : Opened key s₀ (lost ++ [u]) s₁) (failed : Failed u data s₁ s) :
    s.far.objects = s₀.far.objects ∨ s.far.objects = s₀.far.objects.put key data := by
  rcases failed with kept | completed | aborted
  · left
    rw [kept.1]
    exact opened.objects
  · right
    rw [completed.1, ← opened.own u (by simp), ← opened.objects]
    rfl
  · left
    rw [aborted.1]
    exact opened.objects

/-- An object is written whole or not at all, in one request or in parts, whatever
becomes of the requests and the answers; and it is there when the write returns. -/
theorem put_whole (config : S3Config) (relPath : String) (data : Bytes) (s₀ : Session) :
    (∀ s, put config relPath data s₀ = .ok () s →
      s.far.objects = s₀.far.objects.put (config.objectKey relPath) data) ∧
    ∀ e s, put config relPath data s₀ = .error e s → s.far.objects = s₀.far.objects ∨
      s.far.objects = s₀.far.objects.put (config.objectKey relPath) data := by
  have spec : Triple (fun s => s = s₀) (put config relPath data)
      (fun _ s => s.far.objects = s₀.far.objects.put (config.objectKey relPath) data)
      fun _ s => s.far.objects = s₀.far.objects ∨
        s.far.objects = s₀.far.objects.put (config.objectKey relPath) data := by
    unfold put
    split
    · refine putMultipart_spec.weaken _ (fun _ start => start) ?_ ?_
      · rintro _ s ⟨s₁, lost, u, opened, completed⟩
        rw [completed.1, ← opened.own u (by simp), ← opened.objects]
        rfl
      · rintro _ s (⟨started, opened⟩ | ⟨s₁, lost, u, opened, failed, _⟩)
        · exact .inl opened.objects
        · exact failed.objects opened
    · refine Triple.bind _ (putObject_spec.weaken _ (fun _ start => start) (fun _ _ returned => returned) ?_)
        fun _ => Triple.pure ?_
      · rintro _ s (same | written)
        · exact .inl (by rw [same])
        · exact .inr (by rw [written]; rfl)
      · intro s written
        rw [written]
        rfl
  constructor
  · intro s returned
    exact spec.ok rfl returned
  · intro e s raised
    have outcome := spec s₀ rfl
    rwa [raised] at outcome

omit [Network] [Documented] in
theorem put_whole_gusty : ∃ s, @put (network gusty) ⟨"run", 4⟩ "a" [1, 2, 3] ⟨shared, []⟩ = .ok () s ∧
    s.far.objects = FileStore.put .empty (S3Config.objectKey ⟨"run", 4⟩ "a") [1, 2, 3] :=
  ⟨_, rfl, (@put_whole (network gusty) (documented gusty) ⟨"run", 4⟩ "a" [1, 2, 3] ⟨shared, []⟩).1 _ rfl⟩

omit [Documented] in
/-- A write returns, and its object is there, over a line that serves one of any three
requests and does nothing with the others; no upload is left behind. -/
theorem put_returns (served : Nat → Prop) (prompt : Prompt served) (config : S3Config) (relPath : String)
    (data : Bytes) (single : config.singlePutLimit ≤ largestBody)
    (small : data.length ≤ (maxParts - 16) * largestBody) (s₀ : Session) :
    ∃ s, put config relPath data s₀ = .ok () s ∧
      s.far.objects = s₀.far.objects.put (config.objectKey relPath) data ∧
        s.far.pending = s₀.far.pending := by
  have spec : Returns (fun s => s.far = s₀.far) (put config relPath data) fun _ s =>
      s.far.objects = s₀.far.objects.put (config.objectKey relPath) data ∧
        s.far.pending = s₀.far.pending := by
    unfold put
    split
    · rename_i long
      refine putMultipart_returns prompt ?_ small
      rintro rfl
      exact absurd long (Nat.not_lt_zero _)
    · rename_i short
      refine Returns.bind (fun _ s => s.far = s₀.far.write (config.objectKey relPath) data) ?_ fun _ =>
        Returns.pure fun s written => by rw [written]; exact ⟨rfl, rfl⟩
      refine doRequest_returns prompt (P := fun b => b = s₀.far)
        (Q := fun _ b => b = s₀.far.write (config.objectKey relPath) data)
        (fun b _ => .write ((not_lt.mp short).trans single)) ?_
      rintro b b' resp rfl confirmed _
      exact confirms_putObject confirmed
  obtain ⟨_, s, returned, done⟩ := spec s₀ rfl
  exact ⟨s, returned, done⟩

omit [Network] [Documented] in
theorem put_returns_gusty : ∃ s, @put (network gusty) ⟨"run", 2⟩ "a" [1, 2, 3] ⟨shared, []⟩ = .ok () s ∧
    s.far.objects = FileStore.put .empty (S3Config.objectKey ⟨"run", 2⟩ "a") [1, 2, 3] ∧
      s.far.pending = [⟨"other", "1"⟩] := by
  refine @put_returns (network gusty) _ (prompt ?_ fun n => ⟨2, by decide, rfl⟩) ⟨"run", 2⟩ "a" [1, 2, 3]
    (by decide) (by decide) ⟨shared, []⟩
  intro n
  match n with
  | 0 | 1 => decide
  | _ + 2 => exact (by decide : Weather.fair ≠ .unheard)

omit [Network] [Documented] in
theorem Opened.closed (opened : Opened key s₀ (lost ++ [u]) s₁) :
    (s₀.far.pending ++ (lost ++ [u])).filter (· ≠ u) = s₀.far.pending ++ lost := by
  have other : ∀ v ∈ s₀.far.pending ++ lost, v ≠ u := by
    rintro v there rfl
    rcases List.mem_append.mp there with before | during
    · exact (opened.unknown v (by simp)).1 before
    · have distinct := opened.distinct
      rw [List.nodup_append] at distinct
      exact distinct.2.2 v during v (by simp) rfl
  rw [← List.append_assoc, List.filter_append,
    List.filter_eq_self.mpr fun v there => decide_eq_true (other v there)]
  simp

/-- A write in parts that returns has closed the upload it heard of. What it leaves
under way it never heard of, but for an upload whose abort it asked for last. -/
theorem putMultipart_leaves (config : S3Config) (relPath : String) (data : Bytes) (s₀ : Session) :
    (∀ s, putMultipart config relPath data s₀ = .ok () s → ∃ s₁ lost u,
      Opened (config.objectKey relPath) s₀ (lost ++ [u]) s₁ ∧ s₁.sent <+: s.sent ∧
        s.far.pending = s₀.far.pending ++ lost ∧ s.far.past = s₀.far.past ++ [u]) ∧
    ∀ e s, putMultipart config relPath data s₀ = .error e s →
      (∃ started, Opened (config.objectKey relPath) s₀ started s) ∨ ∃ s₁ lost u,
        Opened (config.objectKey relPath) s₀ (lost ++ [u]) s₁ ∧ s₁.sent <+: s.sent ∧
          s.sent.getLast? = some (abortUpload u) ∧
          (s.far.pending = s₀.far.pending ++ lost ∧ s.far.past = s₀.far.past ++ [u] ∨
            s.far.pending = s₀.far.pending ++ (lost ++ [u]) ∧ s.far.past = s₀.far.past) := by
  have closes : ∀ {s₁ : Session} {lost u}, Opened (config.objectKey relPath) s₀ (lost ++ [u]) s₁ →
      s₁.far.pending.filter (· ≠ u) = s₀.far.pending ++ lost ∧ s₁.far.past = s₀.far.past := by
    intro s₁ lost u opened
    rw [opened.far]
    exact ⟨opened.closed, rfl⟩
  have spec := @putMultipart_spec _ _ s₀ data config relPath s₀ rfl
  constructor
  · intro s returned
    rw [returned] at spec
    obtain ⟨s₁, lost, u, opened, completed⟩ := spec
    obtain ⟨pending, past⟩ := closes opened
    refine ⟨s₁, lost, u, opened, completed.2, ?_, ?_⟩
    · rw [completed.1]
      exact pending
    · rw [completed.1, ← past]
      rfl
  · intro e s raised
    rw [raised] at spec
    rcases spec with ⟨started, opened⟩ | ⟨s₁, lost, u, opened, failed, last⟩
    · exact .inl ⟨started, opened⟩
    · obtain ⟨pending, past⟩ := closes opened
      rcases failed with ⟨same, asked⟩ | ⟨written, asked⟩ | ⟨closed, asked⟩
      · refine .inr ⟨s₁, lost, u, opened, asked, last, .inr ?_⟩
        rw [same]
        exact ⟨by rw [opened.far], past⟩
      · refine .inr ⟨s₁, lost, u, opened, asked, last, .inl ?_⟩
        rw [written]
        exact ⟨pending, by rw [← past]; rfl⟩
      · refine .inr ⟨s₁, lost, u, opened, asked, last, .inl ?_⟩
        rw [closed]
        exact ⟨pending, by rw [← past]; rfl⟩

/-- The answer to the first start is lost, and so is every attempt at the one part. -/
abbrev stormy : Nat → Weather
  | 0 => .unheard
  | 2 | 3 | 4 => .lost
  | _ => .fair

/-- What a write that fails leaves under way, and what it closed. -/
def uploadsLeft (outcome : EStateM.Result MoonclipError Session Unit) : Option (List Upload × List Upload) :=
  match outcome with
  | .ok _ _ => none
  | .error _ s => some (s.far.pending, s.far.past)

omit [Network] [Documented] in
/-- The upload heard of is aborted; the one before it, never heard of, is left. -/
theorem putMultipart_leaves_stormy : ∃ e s u,
    @putMultipart (network stormy) ⟨"run", 2⟩ "a" [1, 2, 3] ⟨shared, []⟩ = .error e s ∧
      s.sent.getLast? = some (abortUpload u) ∧ s.far.past = [u] ∧
      ∃ v, v ≠ u ∧ s.far.pending = [⟨"other", "1"⟩, v] := by
  have left : uploadsLeft (@putMultipart (network stormy) ⟨"run", 2⟩ "a" [1, 2, 3] ⟨shared, []⟩) =
      some ([⟨"other", "1"⟩, ⟨"run/a", "uu"⟩], [⟨"run/a", "uuu"⟩]) := by
    decide +kernel
  cases ran : @putMultipart (network stormy) ⟨"run", 2⟩ "a" [1, 2, 3] ⟨shared, []⟩ with
  | ok _ s => simp [ran, uploadsLeft] at left
  | error e s =>
    rw [ran] at left
    obtain ⟨pending, past⟩ := Prod.mk.inj (Option.some.inj left)
    rcases (@putMultipart_leaves (network stormy) (documented _) ⟨"run", 2⟩ "a" [1, 2, 3]
      ⟨shared, []⟩).2 e s ran with
      ⟨started, opened⟩ | ⟨s₁, lost, u, opened, _, last, ⟨_, closed⟩ | ⟨_, closed⟩⟩
    · simp [opened.far] at past
    · obtain rfl : u = ⟨"run/a", "uuu"⟩ := by simpa [closed] using past
      exact ⟨e, s, _, rfl, last, past, ⟨"run/a", "uu"⟩, by decide, pending⟩
    · simp [closed] at past

end

end S3
end Moonclip
