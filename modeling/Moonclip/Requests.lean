import Moonclip.Library.Files
import Moonclip.Library.Requests
import Moonclip.Listing

/-! Requests to an S3-compatible service: what an answer, a refusal or no answer at all
comes to, which of them is worth asking again, and what the service may have done. -/
namespace Moonclip
open Library.Effect Library.Files Library.Requests Library.Substrings

namespace S3

inductive Method where
  | get
  | put
  | delete
  | head
  | post
deriving DecidableEq

structure Request where
  method : Method
  key : String
  body : Option Bytes
  query : List (String × String)

/-- An answer; reading it to its end may fail. -/
structure Response where
  status : UInt16
  etag : Option String
  body : Except String String

/-- What is heard of a request: an answer, or none, or there is no address to send it to. -/
inductive Answer where
  | response (r : Response)
  | transport (message : String)
  | unaddressed (message : String)

def statusPrefix : String := "S3 HTTP "
def transportPrefix : String := "S3 transport error"

def Answer.result (key : String) : Answer → Except MoonclipError Response
  | .response r =>
    if r.status = 404 then .error (.notFound key)
    else if 400 ≤ r.status then
      .error (.storage (statusPrefix ++ toString r.status.toNat ++ ": " ++ r.body.toOption.getD ""))
    else .ok r
  | .transport message => .error (.storage (transportPrefix ++ ": " ++ message))
  | .unaddressed message => .error (.storage ("S3 key " ++ message))

/-- A `u16` as `parse` reads it. -/
def parseU16 (s : List Char) : Option UInt16 :=
  (parseU64 s).bind fun n => if n.toNat < 2 ^ 16 then some (UInt16.ofNat n.toNat) else none

/-- The status in the text of an error. -/
def statusOf (message : List Char) : Option UInt16 :=
  if statusPrefix.toList.isPrefixOf message then
    parseU16 (trim ((split [':'] 0 (message.drop statusPrefix.toList.length)).headD []))
  else none

/-- Whether this failure is worth another attempt. -/
def isRetryable : MoonclipError → Bool
  | .storage message =>
    if transportPrefix.toList.isPrefixOf message.toList then true
    else
      match statusOf message.toList with
      | some code => code = 429 ∨ 500 ≤ code ∧ code ≤ 599
      | none => false
  | _ => false

def maxAttempts : Nat := 3

/-- An upload in parts: the key it is for, and the name the service gave it. -/
structure Upload where
  key : String
  id : String
deriving DecidableEq

/-- What a service holds: objects, the uploads in parts that are under way and those that
are over, and each part it has with its tag. -/
structure Bucket where
  objects : FileStore String Bytes
  pending : List Upload
  past : List Upload
  parts : Upload → String → Option (Bytes × String)

namespace Bucket

def write (b : Bucket) (key : String) (data : Bytes) : Bucket := { b with objects := b.objects.put key data }

def start (b : Bucket) (u : Upload) : Bucket := { b with pending := b.pending ++ [u] }

def hold (b : Bucket) (u : Upload) (number : String) (data : Bytes) (etag : String) : Bucket :=
  { b with parts := fun v n => if v = u ∧ n = number then some (data, etag) else b.parts v n }

def close (b : Bucket) (u : Upload) : Bucket :=
  { b with pending := b.pending.filter (· ≠ u), past := b.past ++ [u] }

end Bucket

/-- What becomes of a request: how it leaves the bucket, and what is heard of it. -/
class Network where
  fate : Nat → Request → Bucket → Bucket × Answer

abbrev Session := Library.Requests.Session Request Bucket
abbrev Call := EStateM MoonclipError Session

section
variable [Network]

def attemptRequest (r : Request) : Call Response := do
  let answer ← ask Network.fate r
  returning (answer.result r.key)

/-- One attempt, and more of them after the failures that are worth it. -/
def doRequest (r : Request) : Call Response := retrying isRetryable (attemptRequest r) (maxAttempts - 1)

end

def putObject (key : String) (data : Bytes) : Request := ⟨.put, key, some data, []⟩
def startUpload (key : String) : Request := ⟨.post, key, none, [("uploads", "")]⟩
def putPart (u : Upload) (number : String) (data : Bytes) : Request :=
  ⟨.put, u.key, some data, [("partNumber", number), ("uploadId", u.id)]⟩
def completeUpload (u : Upload) (listed : Bytes) :
    Request := ⟨.post, u.key, some listed, [("uploadId", u.id)]⟩
def abortUpload (u : Upload) : Request := ⟨.delete, u.key, none, [("uploadId", u.id)]⟩

/-- One part, as a completion lists it. -/
def partElement (number etag : String) : String :=
  "<Part><PartNumber>" ++ number ++ "</PartNumber><ETag>" ++ etag ++ "</ETag></Part>"

/-- `as_bytes`. -/
def textBytes (s : String) : Bytes := s.toUTF8.data.toList

/-- The parts a completion lists, by number and tag. -/
def completion (listed : List (String × String)) : String :=
  listed.foldl (fun text p => text ++ partElement p.1 p.2) "<CompleteMultipartUpload>" ++
    "</CompleteMultipartUpload>"

/-- What a service does to carry a request out. -/
inductive Carries : Request → Bucket → Bucket → Prop where
  | write {b : Bucket} {key : String} {data : Bytes} : Carries (putObject key data) b (b.write key data)
  | start {b : Bucket} {key id : String} (unknown : ⟨key, id⟩ ∉ b.pending ∧ ⟨key, id⟩ ∉ b.past) :
    Carries (startUpload key) b (b.start ⟨key, id⟩)
  | hold {b : Bucket} {key id number etag : String} {data : Bytes} (pending : ⟨key, id⟩ ∈ b.pending)
    (plain : '<' ∉ etag.toList) :
    Carries (putPart ⟨key, id⟩ number data) b (b.hold ⟨key, id⟩ number data etag)
  | complete {b : Bucket} {key id : String} {listed : Bytes} {parts : List (String × String)}
      {bodies : List Bytes}
    (pending : ⟨key, id⟩ ∈ b.pending) (tells : listed = textBytes (completion parts))
    (plain : ∀ p ∈ parts, '<' ∉ p.1.toList ∧ '<' ∉ p.2.toList)
    (held : List.Forall₂ (fun p data => b.parts ⟨key, id⟩ p.1 = some (data, p.2)) parts bodies) :
    Carries (completeUpload ⟨key, id⟩ listed) b ((b.write key bodies.flatten).close ⟨key, id⟩)
  | abort {b : Bucket} {key id : String} (pending : ⟨key, id⟩ ∈ b.pending) :
    Carries (abortUpload ⟨key, id⟩) b (b.close ⟨key, id⟩)

/-- A text whose first element of a name holds a value. -/
def Encloses (text tag value : String) : Prop :=
  ∃ before after, Clear (openTag tag) before ∧
    text.toList = before ++ (openTag tag ++ ((escapeXml value).toList ++ (closeTag tag ++ after)))

/-- `body.contains("<Error>")`. -/
def hasError (text : String) : Bool := (cut (openTag "Error") text.toList).isSome

/-- What is so when a service answers a request without refusing it. -/
inductive Confirms : Request → Bucket → Bucket → Response → Prop where
  | write {b b' : Bucket} {key : String} {data : Bytes} {resp : Response}
    (carried : Carries (putObject key data) b b') : Confirms (putObject key data) b b' resp
  | start {b : Bucket} {key id : String} {resp : Response}
    (unknown : ⟨key, id⟩ ∉ b.pending ∧ ⟨key, id⟩ ∉ b.past)
    (tells : ∀ text, resp.body = .ok text → Encloses text "UploadId" id) :
    Confirms (startUpload key) b (b.start ⟨key, id⟩) resp
  | hold {b : Bucket} {key id number etag : String} {data : Bytes} {resp : Response}
    (pending : ⟨key, id⟩ ∈ b.pending) (plain : '<' ∉ etag.toList)
    (tells : ∀ tag, resp.etag = some tag → tag = etag) :
    Confirms (putPart ⟨key, id⟩ number data) b (b.hold ⟨key, id⟩ number data etag) resp
  | complete {b b' : Bucket} {key id : String} {listed : Bytes} {resp : Response}
    (carried : Carries (completeUpload ⟨key, id⟩ listed) b b') :
    Confirms (completeUpload ⟨key, id⟩ listed) b b' resp
  | completed {b : Bucket} {key id : String} {listed : Bytes} {resp : Response} (past : ⟨key, id⟩ ∈ b.past) :
    Confirms (completeUpload ⟨key, id⟩ listed) b b resp
  | incomplete {b b' : Bucket} {key id : String} {listed : Bytes} {resp : Response}
    (tells : ∀ text, resp.body = .ok text → hasError text = true) :
    Confirms (completeUpload ⟨key, id⟩ listed) b b' resp
  | abort {b b' : Bucket} {key id : String} {resp : Response} : Confirms (abortUpload ⟨key, id⟩) b b' resp
  | read {b : Bucket} {r : Request} {resp : Response} (reads : r.method = .get ∨ r.method = .head) :
    Confirms r b b resp

/-- How the service is documented: a request may be carried out whatever is heard of it,
and an answer that is no refusal says the truth. -/
class Documented [Network] : Prop where
  effect (n : Nat) (r : Request) (b : Bucket) : (Network.fate n r b).1 = b ∨
    Carries r b (Network.fate n r b).1
  confirmed (n : Nat) (r : Request) (b : Bucket) (resp : Response) :
    (Network.fate n r b).2.result r.key = .ok resp → Confirms r b (Network.fate n r b).1 resp

section
variable {b b' : Bucket} {key : String} {u : Upload} {resp : Response} {data listed : Bytes} {number : String}

theorem carries_startUpload (carried : Carries (startUpload key) b b') :
    ∃ id, (⟨key, id⟩ ∉ b.pending ∧ ⟨key, id⟩ ∉ b.past) ∧ b' = b.start ⟨key, id⟩ := by
  cases carried with
  | start unknown => exact ⟨_, unknown, rfl⟩

theorem carries_putPart (carried : Carries (putPart u number data) b b') :
    u ∈ b.pending ∧ ∃ etag, '<' ∉ etag.toList ∧ b' = b.hold u number data etag := by
  cases carried with
  | hold pending plain => exact ⟨pending, _, plain, rfl⟩

theorem carries_completeUpload (carried : Carries (completeUpload u listed) b b') :
    u ∈ b.pending ∧ ∃ parts bodies, listed = textBytes (completion parts) ∧
      (∀ p ∈ parts, '<' ∉ p.1.toList ∧ '<' ∉ p.2.toList) ∧
      List.Forall₂ (fun p data => b.parts u p.1 = some (data, p.2)) parts bodies ∧
      b' = (b.write u.key bodies.flatten).close u := by
  cases carried with
  | complete pending tells plain held => exact ⟨pending, _, _, tells, plain, held, rfl⟩

theorem carries_abortUpload (carried : Carries (abortUpload u) b b') : u ∈ b.pending ∧ b' = b.close u := by
  cases carried with
  | abort pending => exact ⟨pending, rfl⟩

theorem carries_putObject (carried : Carries (putObject key data) b b') : b' = b.write key data := by
  cases carried with
  | write => rfl

theorem confirms_startUpload (confirmed : Confirms (startUpload key) b b' resp) :
    ∃ id, (⟨key, id⟩ ∉ b.pending ∧ ⟨key, id⟩ ∉ b.past) ∧ b' = b.start ⟨key, id⟩ ∧
      ∀ text, resp.body = .ok text → Encloses text "UploadId" id := by
  cases confirmed with
  | start unknown tells => exact ⟨_, unknown, rfl, tells⟩
  | read reads => simp [startUpload] at reads

theorem confirms_putPart (confirmed : Confirms (putPart u number data) b b' resp) :
    u ∈ b.pending ∧ ∃ etag, '<' ∉ etag.toList ∧ b' = b.hold u number data etag ∧
      ∀ tag, resp.etag = some tag → tag = etag := by
  cases confirmed with
  | hold pending plain tells => exact ⟨pending, _, plain, rfl, tells⟩
  | read reads => simp [putPart] at reads

theorem confirms_completeUpload (confirmed : Confirms (completeUpload u listed) b b' resp) :
    Carries (completeUpload u listed) b b' ∨ u ∈ b.past ∧ b' = b ∨
      ∀ text, resp.body = .ok text → hasError text = true := by
  cases confirmed with
  | complete carried => exact .inl carried
  | completed past => exact .inr (.inl ⟨past, rfl⟩)
  | incomplete tells => exact .inr (.inr tells)
  | read reads => simp [completeUpload] at reads

theorem confirms_putObject (confirmed : Confirms (putObject key data) b b' resp) : b' = b.write key data := by
  cases confirmed with
  | write carried => exact carries_putObject carried
  | read reads => simp [putObject] at reads

/-- The client reads the value the service wrote. -/
theorem Encloses.read {text tag value : String} {rest : List Char} (named : openTag tag = '<' :: rest)
    (plain : '<' ∉ rest) (closes : Headed '<' (closeTag tag)) (encloses : Encloses text tag value) :
    extractXmlValue text.toList tag = some value := by
  obtain ⟨before, after, clear, whole⟩ := encloses
  have opens : Headed '<' (openTag tag) := ⟨rest, named, plain⟩
  rw [whole, extractXmlValue_append (opens.free_of_clear clear opens.border)
    (closes.free_of_notMem notMem_escapeXml), String.ofList_toList, unescapeXml_escapeXml]

end

section
variable [Network] [Documented] {r : Request} {pre : Session → Prop} {post : Response → Session → Prop}
  {fail : Session → Prop}

/-- An attempt that fails may have been carried out. -/
theorem attemptRequest_spec
    (answered : ∀ s far resp, pre s → Confirms r s.far far resp → (far = s.far ∨ Carries r s.far far) →
      post resp ⟨far, s.sent ++ [r]⟩)
    (failed : ∀ s far, pre s → (far = s.far ∨ Carries r s.far far) → fail ⟨far, s.sent ++ [r]⟩) :
    Triple pre (attemptRequest r) post fun _ => fail := by
  apply Triple.bind fun answer t => ∃ s far, pre s ∧ (far = s.far ∨ Carries r s.far far) ∧
    (∀ resp, answer.result r.key = .ok resp → Confirms r s.far far resp) ∧ t = ⟨far, s.sent ++ [r]⟩
  · apply ask_spec
    intro s start far answer taken
    have effect := Documented.effect s.sent.length r s.far
    have confirmed := Documented.confirmed s.sent.length r s.far
    rw [taken] at effect confirmed
    exact ⟨s, far, start, effect, confirmed, rfl⟩
  · intro answer
    apply Triple.returning
    · rintro resp t told ⟨s, far, start, effect, confirmed, rfl⟩
      exact answered s far resp start (confirmed resp told) effect
    · rintro e t _ ⟨s, far, start, effect, _, rfl⟩
      exact failed s far start effect

theorem doRequest_spec
    (answered : ∀ s far resp, pre s → Confirms r s.far far resp → (far = s.far ∨ Carries r s.far far) →
      post resp ⟨far, s.sent ++ [r]⟩)
    (failed : ∀ s far, pre s → (far = s.far ∨ Carries r s.far far) → fail ⟨far, s.sent ++ [r]⟩)
    (again : ∀ s, fail s → pre s) : Triple pre (doRequest r) post fun _ => fail :=
  retrying_spec (attemptRequest_spec answered failed) fun _ s _ => again s

end

theorem parseU16_toDigits (n : UInt16) : parseU16 (trim (Nat.toDigits 10 n.toNat)) = some n := by
  have read := parseU64_toDigits n.toUInt64
  rw [UInt16.toNat_toUInt64] at read
  rw [parseU16, read, Option.bind_some, UInt16.toNat_toUInt64, if_pos n.toNat_lt, UInt16.ofNat_toNat]

/-- The status is read back out of the text it was put into, whatever the answer says. -/
theorem statusOf_append (code : UInt16) (body : List Char) :
    statusOf (statusPrefix.toList ++ (Nat.toDigits 10 code.toNat ++ ([':'] ++ body))) = some code := by
  have colon : Headed ':' [':'] := ⟨[], rfl, by simp⟩
  have free : Free [':'] (Nat.toDigits 10 code.toNat) ([':'] ++ body) := by
    apply colon.free_of_notMem
    intro there
    have digit := Nat.isDigit_of_mem_toDigits (by decide) (by decide) there
    contradiction
  rw [statusOf, if_pos (List.isPrefixOf_iff_prefix.mpr (List.prefix_append _ _)), List.drop_left,
    split_free free,
    split_word colon.ne_nil]
  simpa [prepend] using parseU16_toDigits code

theorem isRetryable_transport (message : String) :
    isRetryable (.storage (transportPrefix ++ ": " ++ message)) = true := by
  have headed : transportPrefix.toList.isPrefixOf (transportPrefix ++ ": " ++ message).toList = true := by
    rw [List.isPrefixOf_iff_prefix, String.append_assoc, String.toList_append]
    exact List.prefix_append _ _
  rw [isRetryable, if_pos headed]

theorem isRetryable_status (code : UInt16) (body : String) :
    isRetryable (.storage (statusPrefix ++ toString code.toNat ++ ": " ++ body)) =
      decide (code = 429 ∨ 500 ≤ code ∧ code ≤ 599) := by
  have spelled : (statusPrefix ++ toString code.toNat ++ ": " ++ body).toList =
      statusPrefix.toList ++ (Nat.toDigits 10 code.toNat ++ ([':'] ++ (' ' :: body.toList))) := by
    simp only [String.toList_append, Nat.toString_eq_repr, Nat.toList_repr, List.append_assoc]
    rfl
  have apart : transportPrefix.toList.isPrefixOf
      (statusPrefix ++ toString code.toNat ++ ": " ++ body).toList = false := by
    rw [spelled]
    rfl
  rw [isRetryable, apart, spelled, statusOf_append]
  rfl

/-- Nothing but no answer, a service that fails and one that asks for time is asked again. -/
theorem isRetryable_result {answer : Answer} {key : String} {e : MoonclipError}
    (failed : answer.result key = .error e) :
    isRetryable e = true ↔ (∃ message, answer = .transport message) ∨
      ∃ r, answer = .response r ∧ (r.status = 429 ∨ 500 ≤ r.status ∧ r.status ≤ 599) := by
  cases answer with
  | response r =>
    simp only [Answer.result] at failed
    split at failed
    · rename_i missing
      obtain rfl := Except.error.inj failed
      simp [isRetryable, missing]
    · split at failed
      · obtain rfl := Except.error.inj failed
        rw [isRetryable_status]
        simp
      · contradiction
  | transport message =>
    obtain rfl := Except.error.inj failed
    simp [isRetryable_transport]
  | unaddressed message =>
    obtain rfl := Except.error.inj failed
    have other : isRetryable (.storage ("S3 key " ++ message)) = false := by
      have spelled : ("S3 key " ++ message).toList = "S3 key ".toList ++ message.toList :=
        String.toList_append
      have apart : transportPrefix.toList.isPrefixOf ("S3 key " ++ message).toList = false := by
        rw [spelled]
        rfl
      have apart' : statusPrefix.toList.isPrefixOf ("S3 key " ++ message).toList = false := by
        rw [spelled]
        rfl
      rw [isRetryable, apart, statusOf, apart']
      rfl
    simp [other]

end S3
end Moonclip
