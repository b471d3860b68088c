import Mathlib.Data.List.Forall2
import Moonclip.Library.Blocks
import Moonclip.Requests

/-! Writing an object to an S3-compatible service: in one request, or in parts. Whatever
answers are lost, the object is written whole or not at all. -/
namespace Moonclip
open Library.Blocks Library.Effect Library.Files Library.Requests Library.Substrings

namespace S3

structure S3Config where
  keyPrefix : String
  singlePutLimit : Nat

namespace S3Config

/-- `trim_matches('/')`, and one slash after what that leaves. -/
def normalizedPrefix (config : S3Config) : String :=
  let name := ((config.keyPrefix.toList.dropWhile (· == '/')).reverse.dropWhile (· == '/')).reverse
  if name.isEmpty then "" else String.ofList (name ++ ['/'])

def objectKey (config : S3Config) (relPath : String) : String := config.normalizedPrefix ++ relPath

end S3Config

def minPartSize : Nat := 16 * 1024 * 1024
def maxParts : Nat := 10000

/-- Large enough for the parts to be few enough. -/
def partSizeFor (total : Nat) : Nat := max minPartSize ((total + (maxParts - 16) - 1) / (maxParts - 16))

section
variable [Network]

/-- The parts that are left, and what the completion has to list. -/
def uploadChunks (u : Upload) : Nat → List Bytes → String → Call String
  | _, [], completed => return completed
  | index, chunk :: rest, completed => do
    let number := toString (index + 1)
    let response ← doRequest (putPart u number chunk)
    let etag ← returning <| match response.etag with
      | some etag => .ok etag
      | none => .error (.storage ("S3 part " ++ number ++ " came back without an ETag"))
    uploadChunks u (index + 1) rest (completed ++ partElement number etag)

def uploadParts (u : Upload) (data : Bytes) : Call Unit := do
  let listed ← uploadChunks u 0 (chunks (partSizeFor data.length) data) "<CompleteMultipartUpload>"
  let response ← doRequest (completeUpload u (textBytes (listed ++ "</CompleteMultipartUpload>")))
  let body ← returning (response.body.mapError fun e => .storage ("S3 multipart complete: " ++ e))
  if hasError body then
    let code := (extractXmlValue body.toList "Code").getD "unknown"
    throw (.storage ("S3 refused to complete the multipart upload of " ++ u.key ++ ": " ++ code))

def putMultipart (config : S3Config) (relPath : String) (data : Bytes) : Call Unit := do
  let key := config.objectKey relPath
  let created ← doRequest (startUpload key)
  let body ← returning (created.body.mapError fun e => .storage ("S3 multipart start: " ++ e))
  let uploadId ← returning <| match extractXmlValue body.toList "UploadId" with
    | some uploadId => .ok uploadId
    | none => .error (.storage "S3 multipart start returned no UploadId")
  cleaningUp (uploadParts ⟨key, uploadId⟩ data) (doRequest (abortUpload ⟨key, uploadId⟩))

def put (config : S3Config) (relPath : String) (data : Bytes) : Call Unit := do
  if data.length > config.singlePutLimit then
    putMultipart config relPath data
  else
    let _ ← doRequest (putObject (config.objectKey relPath) data)

end

/-- What follows the opening of a completion. -/
def listing (parts : List (String × String)) : List Char :=
  parts.flatMap (fun p => (partElement p.1 p.2).toList) ++ "</CompleteMultipartUpload>".toList

theorem toList_completion (parts : List (String × String)) :
    (completion parts).toList = "<CompleteMultipartUpload>".toList ++ listing parts := by
  suffices ∀ text : String, (parts.foldl (fun text p => text ++ partElement p.1 p.2) text).toList =
      text.toList ++ parts.flatMap fun p => (partElement p.1 p.2).toList by
    rw [completion, String.toList_append, this, List.append_assoc]
    rfl
  intro text
  induction parts generalizing text with
  | nil => simp
  | cons p parts ih => rw [List.foldl_cons, ih, String.toList_append, List.flatMap_cons, List.append_assoc]

theorem toList_five {a b c d e : String} {xs ys : List Char} (second : c.toList = '<' :: xs)
    (last : e.toList = '<' :: ys) :
    (a ++ b ++ c ++ d ++ e).toList = a.toList ++ (b.toList ++ '<' :: (xs ++ (d.toList ++ '<' :: ys))) := by
  simp only [String.toList_append, List.append_assoc, second, last, List.cons_append]

theorem toList_partElement {number etag : String} :
    (partElement number etag).toList = "<Part><PartNumber>".toList ++
    (number.toList ++ '<' ::
      ("/PartNumber><ETag>".toList ++ (etag.toList ++ '<' :: "/ETag></Part>".toList))) :=
  toList_five (by decide) (by decide)

theorem cut_plain {xs ys xs' ys' : List Char} (plain : '<' ∉ xs) (plain' : '<' ∉ ys)
    (same : xs ++ '<' :: xs' = ys ++ '<' :: ys') : xs = ys ∧ xs' = ys' := by
  have bracket : Headed '<' ['<'] := ⟨[], rfl, by simp⟩
  have one : cut ['<'] (xs ++ '<' :: xs') = some (xs, xs') := cut_append (bracket.free_of_notMem plain)
  have two : cut ['<'] (ys ++ '<' :: ys') = some (ys, ys') := cut_append (bracket.free_of_notMem plain')
  rw [same, two] at one
  simpa [eq_comm] using one

theorem listing_inj {parts others : List (String × String)}
    (plain : ∀ p ∈ parts, '<' ∉ p.1.toList ∧ '<' ∉ p.2.toList)
    (plain' : ∀ p ∈ others, '<' ∉ p.1.toList ∧ '<' ∉ p.2.toList) (same : listing parts = listing others) :
    parts = others := by
  have cons : ∀ p ps, listing (p :: ps) = (partElement p.1 p.2).toList ++ listing ps := by
    intro p ps
    rw [listing, listing, List.flatMap_cons, List.append_assoc]
  induction parts generalizing others with
  | nil =>
    cases others with
    | nil => rfl
    | cons q others =>
      rw [cons, toList_partElement] at same
      simp [listing] at same
  | cons p parts ih =>
    cases others with
    | nil =>
      rw [cons, toList_partElement] at same
      simp [listing] at same
    | cons q others =>
      simp only [cons, toList_partElement, List.append_assoc, List.append_cancel_left_eq,
        List.cons_append] at same
      obtain ⟨number, same⟩ := cut_plain (plain p (by simp)).1 (plain' q (by simp)).1 same
      rw [List.append_cancel_left_eq] at same
      obtain ⟨etag, same⟩ := cut_plain (plain p (by simp)).2 (plain' q (by simp)).2 same
      rw [List.append_cancel_left_eq] at same
      rw [ih (fun p there => plain p (by simp [there])) (fun p there => plain' p (by simp [there])) same,
        Prod.ext (String.toList_inj.mp number) (String.toList_inj.mp etag)]

/-- What a completion lists can be read off it. -/
theorem completion_inj {parts others : List (String × String)}
    (plain : ∀ p ∈ parts, '<' ∉ p.1.toList ∧ '<' ∉ p.2.toList)
    (plain' : ∀ p ∈ others, '<' ∉ p.1.toList ∧ '<' ∉ p.2.toList)
    (same : completion parts = completion others) :
    parts = others := by
  have spelled := congrArg String.toList same
  rw [toList_completion, toList_completion, List.append_cancel_left_eq] at spelled
  exact listing_inj plain plain' spelled

theorem textBytes_inj {s t : String} (same : textBytes s = textBytes t) : s = t :=
  String.toByteArray_inj.mp (ByteArray.ext (Array.toList_inj.mp same))

theorem toString_inj {m n : Nat} (same : toString m = toString n) : m = n := by
  have digits := congrArg String.toList same
  simp only [Nat.toString_eq_repr, Nat.toList_repr] at digits
  rw [← @Nat.ofDigitChars_ten_toDigits m, digits, Nat.ofDigitChars_ten_toDigits]

theorem plain_toString {n : Nat} : '<' ∉ (toString n).toList := by
  rw [Nat.toString_eq_repr, Nat.toList_repr]
  exact notMem_toDigits

section
variable {key : String} {u : Upload} {s₀ s₁ s : Session} {started lost : List Upload} {data : Bytes}
  {done : List (String × String)} {bodies rest : List Bytes} {index : Nat} {completed : String}

/-- Some uploads were started, one for each of some of the requests made. -/
structure Opened (key : String) (s₀ : Session) (started : List Upload) (s : Session) : Prop where
  own : ∀ u ∈ started, u.key = key
  unknown : ∀ u ∈ started, u ∉ s₀.far.pending ∧ u ∉ s₀.far.past
  distinct : started.Nodup
  far : s.far = { s₀.far with pending := s₀.far.pending ++ started }
  asked : ∃ n, started.length ≤ n ∧ s.sent = s₀.sent ++ List.replicate n (startUpload key)

/-- Nothing but parts. -/
def Kept (s₁ s : Session) : Prop := s.far = { s₁.far with parts := s.far.parts } ∧ s₁.sent <+: s.sent

/-- The object is there, and the upload over. -/
def Completed (u : Upload) (data : Bytes) (s₁ s : Session) : Prop :=
  s.far = ({ s₁.far with parts := s.far.parts }.write u.key data).close u ∧ s₁.sent <+: s.sent

/-- The upload is over, and nothing came of it. -/
def Aborted (u : Upload) (s₁ s : Session) : Prop :=
  s.far = { s₁.far with parts := s.far.parts }.close u ∧ s₁.sent <+: s.sent

/-- The service has these parts, under these numbers. -/
structure Uploading (u : Upload) (done : List (String × String)) (bodies : List Bytes)
    (b : Bucket) : Prop where
  numbered : done.map Prod.fst = (List.range done.length).map fun i => toString (i + 1)
  plain : ∀ p ∈ done, '<' ∉ p.1.toList ∧ '<' ∉ p.2.toList
  held : List.Forall₂ (fun p data => b.parts u p.1 = some (data, p.2)) done bodies

theorem Opened.refl : Opened key s []  s where
  own := nofun
  unknown := nofun
  distinct := List.nodup_nil
  far := by simp
  asked := ⟨0, le_rfl, by simp⟩

theorem Kept.refl : Kept s s := ⟨rfl, List.prefix_rfl⟩

theorem Kept.asks {far : Bucket} {r : Request} (kept : Kept s₁ s)
    (same : far = { s.far with parts := far.parts }) :
    Kept s₁ ⟨far, s.sent ++ [r]⟩ := by
  refine ⟨?_, kept.2.trans (List.prefix_append _ _)⟩
  change far = { s₁.far with parts := far.parts }
  rw [same, kept.1]

theorem Opened.snoc {id : String} (opened : Opened key s₀ started s)
    (unknown : ⟨key, id⟩ ∉ s.far.pending ∧ ⟨key, id⟩ ∉ s.far.past) :
    Opened key s₀ (started ++ [⟨key, id⟩]) ⟨s.far.start ⟨key, id⟩, s.sent ++ [startUpload key]⟩ := by
  obtain ⟨n, enough, asked⟩ := opened.asked
  rw [opened.far] at unknown
  simp only [List.mem_append, not_or] at unknown
  obtain ⟨⟨absent, new⟩, past⟩ := unknown
  constructor
  · intro u there
    rcases List.mem_append.mp there with before | last
    · exact opened.own u before
    · rw [List.mem_singleton.mp last]
  · intro u there
    rcases List.mem_append.mp there with before | last
    · exact opened.unknown u before
    · rw [List.mem_singleton.mp last]
      exact ⟨absent, past⟩
  · rw [List.nodup_append]
    refine ⟨opened.distinct, by simp, ?_⟩
    rintro v there _ last rfl
    rw [List.mem_singleton] at last
    exact new (last ▸ there)
  · change s.far.start ⟨key, id⟩ = _
    rw [opened.far, Bucket.start, List.append_assoc]
  · refine ⟨n + 1, by simpa using enough, ?_⟩
    change s.sent ++ [startUpload key] = _
    rw [asked, List.replicate_succ', List.append_assoc]

theorem Opened.again (opened : Opened key s₀ started s) :
    Opened key s₀ started ⟨s.far, s.sent ++ [startUpload key]⟩ := by
  obtain ⟨n, enough, asked⟩ := opened.asked
  refine ⟨opened.own, opened.unknown, opened.distinct, opened.far, n + 1, by omega, ?_⟩
  change s.sent ++ [startUpload key] = _
  rw [asked, List.replicate_succ', List.append_assoc]

theorem Opened.carries {far : Bucket} (opened : Opened key s₀ started s)
    (effect : far = s.far ∨ Carries (startUpload key) s.far far) :
    ∃ started, Opened key s₀ started ⟨far, s.sent ++ [startUpload key]⟩ := by
  rcases effect with rfl | carried
  · exact ⟨started, opened.again⟩
  · obtain ⟨id, unknown, rfl⟩ := carries_startUpload carried
    exact ⟨_, opened.snoc unknown⟩

end

section
variable {b : Bucket} {u : Upload} {data : Bytes} {etag : String} {done : List (String × String)}
  {bodies others : List Bytes}

theorem Uploading.nil : Uploading u [] [] b where
  numbered := rfl
  plain := nofun
  held := .nil

/-- The next number is a new one. -/
theorem Uploading.hold (uploading : Uploading u done bodies b) :
    Uploading u done bodies (b.hold u (toString (done.length + 1)) data etag) := by
  refine ⟨uploading.numbered, uploading.plain, ?_⟩
  have earlier : List.Forall₂ (fun p data => p ∈ done ∧ b.parts u p.1 = some (data, p.2)) done bodies :=
    (List.forall₂_and_left _ _).mpr ⟨fun _ there => there, uploading.held⟩
  refine earlier.imp fun p data there => ?_
  have other : p.1 ≠ toString (done.length + 1) := by
    intro same
    have number : p.1 ∈ (List.range done.length).map fun i => toString (i + 1) :=
      uploading.numbered ▸ List.mem_map_of_mem there.1
    obtain ⟨i, before, spelled⟩ := List.mem_map.mp number
    have last := toString_inj (spelled.trans same)
    have small := List.mem_range.mp before
    omega
  simp only [Bucket.hold, other, and_false, if_false]
  exact there.2

theorem Uploading.snoc (uploading : Uploading u done bodies b) (plain : '<' ∉ etag.toList)
    (held : b.parts u (toString (done.length + 1)) = some (data, etag)) :
    Uploading u (done ++ [(toString (done.length + 1), etag)]) (bodies ++ [data]) b := by
  constructor
  · rw [List.map_append, List.length_append, List.length_singleton, List.range_succ, List.map_append,
      uploading.numbered]
    rfl
  · intro p there
    rcases List.mem_append.mp there with before | last
    · exact uploading.plain p before
    · rw [List.mem_singleton.mp last]
      exact ⟨plain_toString, plain⟩
  · exact List.rel_append uploading.held (.cons held .nil)

/-- There is one body under each number. -/
theorem held_unique (held : List.Forall₂ (fun p data => b.parts u p.1 = some (data, p.2)) done bodies)
    (held' : List.Forall₂ (fun p data => b.parts u p.1 = some (data, p.2)) done others) :
      bodies = others := by
  induction held generalizing others with
  | nil =>
    cases held'
    rfl
  | cons first rest ih =>
    cases held' with
    | cons first' rest' =>
      obtain ⟨rfl, -⟩ := Prod.mk.inj (Option.some.inj (first.symm.trans first'))
      rw [ih rest']

end

section
variable {far : Bucket} {r : Request} {u : Upload} {s s₁ : Session} {data : Bytes}
  {all : List (String × String)}
  {bodies : List Bytes}

theorem Completed.asks (completed : Completed u data s₁ s) : Completed u data s₁ ⟨s.far, s.sent ++ [r]⟩ :=
  ⟨completed.1, completed.2.trans (List.prefix_append _ _)⟩

theorem Aborted.asks (aborted : Aborted u s₁ s) : Aborted u s₁ ⟨s.far, s.sent ++ [r]⟩ :=
  ⟨aborted.1, aborted.2.trans (List.prefix_append _ _)⟩

theorem Completed.not_pending (completed : Completed u data s₁ s) : u ∉ s.far.pending := by
  rw [completed.1]
  simp [Bucket.close]

theorem Aborted.not_pending (aborted : Aborted u s₁ s) : u ∉ s.far.pending := by
  rw [aborted.1]
  simp [Bucket.close]

/-- Before a completion is carried out, or after: nothing in between. -/
def Completing (u : Upload) (all : List (String × String)) (bodies : List Bytes) (s₁ s : Session) : Prop :=
  (Uploading u all bodies s.far ∧ Kept s₁ s) ∨ Completed u bodies.flatten s₁ s

theorem Completing.carried {listed : Bytes} (completing : Completing u all bodies s₁ s)
    (lists : listed = textBytes (completion all)) (carried : Carries (completeUpload u listed) s.far far) :
    Completed u bodies.flatten s₁ ⟨far, s.sent ++ [r]⟩ := by
  obtain ⟨pending, parts, others, tells, plain, held, rfl⟩ := carries_completeUpload carried
  rcases completing with ⟨uploading, kept⟩ | completed
  · obtain rfl := completion_inj plain uploading.plain (textBytes_inj (tells.symm.trans lists))
    obtain rfl := held_unique held uploading.held
    refine ⟨?_, kept.2.trans (List.prefix_append _ _)⟩
    change (s.far.write u.key _).close u = _
    rw [kept.1]
    rfl
  · exact absurd pending completed.not_pending

theorem Completing.carries {listed : Bytes} (completing : Completing u all bodies s₁ s)
    (lists : listed = textBytes (completion all))
    (effect : far = s.far ∨ Carries (completeUpload u listed) s.far far) :
    Completing u all bodies s₁ ⟨far, s.sent ++ [r]⟩ := by
  rcases effect with rfl | carried
  · rcases completing with ⟨uploading, kept⟩ | completed
    · exact .inl ⟨uploading, kept.asks rfl⟩
    · exact .inr completed.asks
  · exact .inr (completing.carried lists carried)

/-- What an upload that failed may have come to. -/
def Failed (u : Upload) (data : Bytes) (s₁ s : Session) : Prop :=
  Kept s₁ s ∨ Completed u data s₁ s ∨ Aborted u s₁ s

theorem Failed.carries (failed : Failed u data s₁ s)
    (effect : far = s.far ∨ Carries (abortUpload u) s.far far) :
    Failed u data s₁ ⟨far, s.sent ++ [r]⟩ := by
  rcases effect with rfl | carried
  · rcases failed with kept | completed | aborted
    · exact .inl (kept.asks rfl)
    · exact .inr (.inl completed.asks)
    · exact .inr (.inr aborted.asks)
  · obtain ⟨pending, rfl⟩ := carries_abortUpload carried
    rcases failed with kept | completed | aborted
    · refine .inr (.inr ⟨?_, kept.2.trans (List.prefix_append _ _)⟩)
      change s.far.close u = _
      rw [kept.1]
      rfl
    · exact absurd pending completed.not_pending
    · exact absurd pending aborted.not_pending

end

variable [Network] [Documented]
section
variable {key : String} {u : Upload} {s₀ s₁ s : Session} {started lost : List Upload} {data : Bytes}
  {done : List (String × String)} {bodies rest : List Bytes} {index : Nat} {completed : String}

/-- Every start that is carried out starts an upload, heard of or not. -/
theorem startUpload_spec : Triple (fun s => s = s₀) (doRequest (startUpload key))
    (fun resp s => ∃ lost id, Opened key s₀ (lost ++ [⟨key, id⟩]) s ∧
      ∀ text, resp.body = .ok text → Encloses text "UploadId" id)
    fun _ s => ∃ started, Opened key s₀ started s := by
  refine Triple.weaken (fun s => ∃ started, Opened key s₀ started s)
    (doRequest_spec ?_ ?_ fun s opened => opened) ?_
    (fun _ _ returned => returned) fun _ _ raised => raised
  · rintro s far resp ⟨lost, opened⟩ confirmed _
    obtain ⟨id, unknown, rfl, tells⟩ := confirms_startUpload confirmed
    exact ⟨lost, id, opened.snoc unknown, tells⟩
  · rintro s far ⟨started, opened⟩ effect
    exact opened.carries effect
  · rintro s rfl
    exact ⟨[], .refl⟩

/-- A part may be written again; what was written before it stays. -/
theorem putPart_spec : Triple (fun s => Uploading u done bodies s.far ∧ Kept s₁ s)
    (doRequest (putPart u (toString (done.length + 1)) data))
    (fun resp s => Kept s₁ s ∧ ∀ tag, resp.etag = some tag →
      Uploading u (done ++ [(toString (done.length + 1), tag)]) (bodies ++ [data]) s.far)
    fun _ s => Uploading u done bodies s.far ∧ Kept s₁ s := by
  refine doRequest_spec ?_ ?_ fun s kept => kept
  · rintro s far resp ⟨uploading, kept⟩ confirmed _
    obtain ⟨_, etag, plain, rfl, tells⟩ := confirms_putPart confirmed
    refine ⟨kept.asks rfl, fun tag named => ?_⟩
    obtain rfl := tells tag named
    exact uploading.hold.snoc plain (by simp [Bucket.hold])
  · rintro s far ⟨uploading, kept⟩ (rfl | carried)
    · exact ⟨uploading, kept.asks rfl⟩
    · obtain ⟨_, etag, _, rfl⟩ := carries_putPart carried
      exact ⟨uploading.hold, kept.asks rfl⟩

/-- What the completion is going to list, the service has. -/
theorem uploadChunks_spec (place : done.length = index)
    (listed : completed = done.foldl (fun text p => text ++ partElement p.1 p.2)
      "<CompleteMultipartUpload>") :
    Triple (fun s => Uploading u done bodies s.far ∧ Kept s₁ s) (uploadChunks u index rest completed)
      (fun text s => ∃ all, text ++ "</CompleteMultipartUpload>" = completion all ∧
        Uploading u all (bodies ++ rest) s.far ∧ Kept s₁ s)
      fun _ s => Kept s₁ s := by
  subst place listed
  induction rest generalizing done bodies with
  | nil =>
    apply Triple.pure
    rintro s ⟨uploading, kept⟩
    rw [List.append_nil]
    exact ⟨done, rfl, uploading, kept⟩
  | cons chunk rest ih =>
    refine Triple.bind _ (putPart_spec.weaken _ (fun _ start => start) (fun _ _ returned => returned)
      fun _ _ raised => raised.2) fun resp => ?_
    cases tagged : resp.etag with
    | none => exact Triple.returning_error rfl fun s raised => raised.1
    | some tag =>
      refine Triple.returning_ok rfl ?_
      have next := @ih (done ++ [(toString (done.length + 1), tag)]) (bodies ++ [chunk])
      rw [List.length_append, List.length_singleton, List.foldl_append] at next
      refine next.weaken _ (fun s start => ?_) (fun text s returned => ?_) fun _ _ raised => raised
      · exact ⟨start.2 tag rfl, start.1⟩
      · rwa [List.append_assoc] at returned

theorem completeUpload_spec {listed : Bytes} (new : u ∉ s₁.far.past)
    (lists : listed = textBytes (completion done)) :
    Triple (Completing u done bodies s₁) (doRequest (completeUpload u listed))
      (fun resp s => Completing u done bodies s₁ s ∧
        ∀ text, resp.body = .ok text → hasError text = false → Completed u bodies.flatten s₁ s)
      fun _ => Completing u done bodies s₁ := by
  refine doRequest_spec ?_ (fun s far completing effect => completing.carries lists effect)
    fun s completing => completing
  intro s far resp completing confirmed effect
  refine ⟨completing.carries lists effect, fun text told clean => ?_⟩
  rcases confirms_completeUpload confirmed with carried | ⟨past, rfl⟩ | refused
  · exact completing.carried lists carried
  · rcases completing with ⟨_, kept⟩ | completed
    · rw [kept.1] at past
      exact absurd past new
    · exact completed.asks
  · rw [refused text told] at clean
    contradiction

theorem abortUpload_spec : Triple (Failed u data s₁) (doRequest (abortUpload u))
    (fun _ s => Failed u data s₁ s ∧ s.sent.getLast? = some (abortUpload u))
    fun _ s => Failed u data s₁ s ∧ s.sent.getLast? = some (abortUpload u) := by
  refine doRequest_spec ?_ ?_ fun s failed => failed.1
  · intro s far resp failed _ effect
    exact ⟨failed.carries effect, by simp⟩
  · intro s far failed effect
    exact ⟨failed.carries effect, by simp⟩

omit [Network] [Documented] in
theorem partSizeFor_pos {total : Nat} : 0 < partSizeFor total :=
  lt_of_lt_of_le (by decide) (le_max_left _ _)

theorem uploadParts_spec (new : u ∉ s₁.far.past) :
    Triple (Kept s₁) (uploadParts u data) (fun _ => Completed u data s₁) fun _ => Failed u data s₁ := by
  have whole : (chunks (partSizeFor data.length) data).flatten = data := flatten_chunks partSizeFor_pos data
  have sends : Triple (fun s => Uploading u [] [] s.far ∧ Kept s₁ s)
      (uploadChunks u 0 (chunks (partSizeFor data.length) data) "<CompleteMultipartUpload>") _ _ :=
    uploadChunks_spec rfl rfl
  refine Triple.bind _ (sends.weaken _ ?_ (fun _ _ returned => returned) fun _ _ raised =>
    .inl raised) fun text => ?_
  · exact fun s kept => ⟨.nil, kept⟩
  apply Triple.learn (P := ∃ all, text ++ "</CompleteMultipartUpload>" = completion all ∧
    ∀ p ∈ all, '<' ∉ p.1.toList ∧ '<' ∉ p.2.toList)
  · rintro s ⟨all, lists, uploading, _⟩
    exact ⟨all, lists, uploading.plain⟩
  rintro ⟨all, lists, plain⟩
  have failed : ∀ s, Completing u all (chunks (partSizeFor data.length) data) s₁ s → Failed u data s₁ s := by
    rintro s (⟨_, kept⟩ | completed)
    · exact .inl kept
    · exact .inr (.inl (whole ▸ completed))
  refine Triple.bind _ ((completeUpload_spec new (congrArg textBytes lists)).weaken _ ?_
    (fun _ _ returned => returned) fun _ s raised => failed s raised) fun resp => ?_
  · rintro s ⟨all', lists', uploading, kept⟩
    obtain rfl := completion_inj uploading.plain plain (lists'.symm.trans lists)
    exact .inl ⟨uploading, kept⟩
  · cases told : resp.body with
    | error e => exact Triple.returning_error rfl fun s returned => failed s returned.1
    | ok text =>
      refine Triple.returning_ok rfl ?_
      split
      · exact Triple.throw fun s returned => failed s returned.1
      · rename_i clean
        exact Triple.pure fun s returned => whole ▸ returned.2 text rfl (by simpa using clean)

/-- What a write in parts comes to, and what it leaves under way. -/
theorem putMultipart_spec {config : S3Config} {relPath : String} :
    Triple (fun s => s = s₀) (putMultipart config relPath data)
    (fun _ s => ∃ s₁ lost u,
      Opened (config.objectKey relPath) s₀ (lost ++ [u]) s₁ ∧ Completed u data s₁ s)
    fun _ s => (∃ started, Opened (config.objectKey relPath) s₀ started s) ∨
      ∃ s₁ lost u, Opened (config.objectKey relPath) s₀ (lost ++ [u]) s₁ ∧ Failed u data s₁ s ∧
        s.sent.getLast? = some (abortUpload u) := by
  refine Triple.bind _ (startUpload_spec.weaken _ (fun _ start => start) (fun _ _ returned => returned)
    fun _ _ raised => .inl raised) fun resp => ?_
  cases told : resp.body with
  | error e =>
    refine Triple.returning_error rfl ?_
    rintro s ⟨lost, id, opened, _⟩
    exact .inl ⟨_, opened⟩
  | ok text =>
    refine Triple.returning_ok rfl ?_
    rintro s ⟨lost, id, opened, tells⟩
    have read : extractXmlValue text.toList "UploadId" = some id :=
      (tells text rfl).read rfl (by decide) ⟨_, rfl, by decide⟩
    have new : ⟨config.objectKey relPath, id⟩ ∉ s.far.past := by
      rw [opened.far]
      exact (opened.unknown _ (by simp)).2
    have spec : Triple (Kept s) (cleaningUp (uploadParts ⟨config.objectKey relPath, id⟩ data) _) _ _ :=
      cleaningUp_spec (uploadParts_spec new) fun _ => abortUpload_spec
    rw [read]
    refine (Triple.returning_ok rfl spec).weaken _ (fun _ start => start) (fun _ t completed => ?_)
      (fun _ t failed => ?_) s .refl
    · exact ⟨s, lost, _, opened, completed⟩
    · exact .inr ⟨s, lost, _, opened, failed⟩

end
end S3
end Moonclip
