import Moonclip.Uploads

/-! What a service asks of a request, and a line over which one of any three attempts
gets through: over it each request of a write in parts is served, and so is the write. -/
namespace Moonclip
open Library.Blocks Library.Effect Library.Files Library.Requests Library.Substrings

namespace S3

def smallestPart : Nat := 5 * 1024 * 1024
def largestBody : Nat := 5 * 1024 * 1024 * 1024

/-- The requests a service carries out: parts are numbered from one up to a limit and
listed in order, and none but the last is small. -/
inductive Acceptable : Request → Bucket → Prop where
  | write {b : Bucket} {key : String} {data : Bytes} (small : data.length ≤ largestBody) :
    Acceptable (putObject key data) b
  | start {b : Bucket} {key : String} : Acceptable (startUpload key) b
  | hold {b : Bucket} {key id : String} {n : Nat} {data : Bytes} (pending : ⟨key, id⟩ ∈ b.pending)
    (some_ : 1 ≤ n) (few : n ≤ maxParts) (small : data.length ≤ largestBody) :
    Acceptable (putPart ⟨key, id⟩ (toString n) data) b
  | complete {b : Bucket} {key id : String} {parts : List (String × String)} {bodies : List Bytes}
    (pending : ⟨key, id⟩ ∈ b.pending) (some_ : parts ≠ []) (few : parts.length ≤ maxParts)
    (numbered : parts.map Prod.fst = (List.range parts.length).map fun i => toString (i + 1))
    (plain : ∀ p ∈ parts, '<' ∉ p.1.toList ∧ '<' ∉ p.2.toList)
    (held : List.Forall₂ (fun p data => b.parts ⟨key, id⟩ p.1 = some (data, p.2)) parts bodies)
    (large : ∀ body ∈ bodies.dropLast, smallestPart ≤ body.length) :
    Acceptable (completeUpload ⟨key, id⟩ (textBytes (completion parts))) b
  | abort {b : Bucket} {key id : String} (pending : ⟨key, id⟩ ∈ b.pending) :
    Acceptable (abortUpload ⟨key, id⟩) b

/-- An answer that can be read, and has what the client looks for. -/
structure Response.Legible (r : Request) (resp : Response) : Prop where
  body : ∃ text, resp.body = .ok text ∧ hasError text = false
  etag : r.method = .put → ∃ tag, resp.etag = some tag

/-- Carried out, and answered. -/
def Serves [Network] (n : Nat) : Prop := ∀ r b, Acceptable r b → ∃ b' answer resp,
  Network.fate n r b = (b', answer) ∧ answer.result r.key = .ok resp ∧ Confirms r b b' resp ∧ resp.Legible r

/-- Not carried out: no answer, or one that asks for another attempt. -/
def Idles [Network] (n : Nat) : Prop := ∀ r b, ∃ answer, Network.fate n r b = (b, answer) ∧
  ((∃ message, answer = .transport message) ∨
    ∃ resp, answer = .response resp ∧ (resp.status = 429 ∨ 500 ≤ resp.status ∧ resp.status ≤ 599))

/-- One of any three requests in a row is served, and the others change nothing. -/
structure Prompt [Network] (served : Nat → Prop) : Prop where
  serves : ∀ n, served n → Serves n
  idles : ∀ n, ¬ served n → Idles n
  soon : ∀ n, ∃ k < maxAttempts, served (n + k)

section
variable [Network] {served : Nat → Prop} {r : Request} {P : Bucket → Prop} {Q : Response → Bucket → Prop}

theorem Idles.fails {n : Nat} (idles : Idles n) (r : Request) (b : Bucket) :
    ∃ answer e, Network.fate n r b = (b, answer) ∧ answer.result r.key = .error e ∧ isRetryable e = true := by
  obtain ⟨answer, taken, cause⟩ := idles r b
  cases failed : answer.result r.key with
  | error e => exact ⟨answer, e, taken, failed, (isRetryable_result failed).mpr cause⟩
  | ok resp =>
    rcases cause with ⟨message, rfl⟩ | ⟨resp', rfl, status⟩
    · contradiction
    · have refused : 400 ≤ resp'.status := by
        rcases status with asks | ⟨fails, _⟩
        · rw [asks]
          decide
        · exact UInt16.le_trans (by decide) fails
      simp only [Answer.result, refused, if_true] at failed
      split at failed <;> contradiction

/-- A request that is acceptable is served in time. -/
theorem doRequest_returns (prompt : Prompt served) (acceptable : ∀ b, P b → Acceptable r b)
    (confirmed : ∀ b b' resp, P b → Confirms r b b' resp → resp.Legible r → Q resp b') :
    Returns (fun s => P s.far) (doRequest r) (fun resp s => Q resp s.far) := by
  have spec := @Returns.retrying _ _ _ isRetryable (attemptRequest r) (fun s => P s.far)
    (fun resp s => Q resp s.far)
    (maxAttempts - 1) served (fun s => s.sent.length) ?_ ?_
  · refine spec.weaken _ (fun s start => ⟨start, ?_⟩) fun _ _ returned => returned
    obtain ⟨k, bound, now⟩ := prompt.soon s.sent.length
    exact ⟨k, Nat.le_sub_one_of_lt bound, now⟩
  · rintro s ⟨start, now⟩
    obtain ⟨b', answer, resp, taken, result, told, legible⟩ :=
      prompt.serves _ now r s.far (acceptable _ start)
    refine ⟨resp, ⟨b', s.sent ++ [r]⟩, ?_, confirmed _ _ _ start told legible⟩
    rw [attemptRequest, bind_ask, taken]
    exact returning_eq_ok.mpr ⟨result, rfl⟩
  · intro s start idle
    obtain ⟨answer, e, taken, failed, again⟩ := (prompt.idles _ idle).fails r s.far
    refine ⟨e, ⟨s.far, s.sent ++ [r]⟩, ?_, again, start, by simp⟩
    rw [attemptRequest, bind_ask, taken]
    change returning (answer.result r.key) _ = _
    rw [failed]
    rfl

end

section
variable {size : Nat} {data body : Bytes}

theorem length_le_of_mem_chunks (there : body ∈ chunks size data) : body.length ≤ size := by
  obtain ⟨i, _, rfl⟩ := List.mem_map.mp there
  exact List.length_take_le _ _

/-- Only the last piece is short. -/
theorem length_of_mem_dropLast (positive : 0 < size) (there : body ∈ (chunks size data).dropLast) :
    body.length = size := by
  have early : (List.range ((data.length + size - 1) / size)).dropLast =
      List.range ((data.length + size - 1) / size - 1) := by
    cases (data.length + size - 1) / size with
    | zero => rfl
    | succ k => rw [List.range_succ, List.dropLast_concat, Nat.add_sub_cancel]
  rw [chunks, ← List.map_dropLast, early] at there
  obtain ⟨i, before, rfl⟩ := List.mem_map.mp there
  have before := List.mem_range.mp before
  have rounded := Nat.div_mul_le_self (data.length + size - 1) size
  have next : (i + 2) * size ≤ (data.length + size - 1) / size * size := Nat.mul_le_mul_right _ (by omega)
  have spread : (i + 2) * size = i * size + 2 * size := Nat.add_mul i 2 size
  rw [List.length_take, List.length_drop]
  omega

theorem chunks_ne_nil (positive : 0 < size) (some_ : data ≠ []) : chunks size data ≠ [] := by
  intro none_
  have whole := flatten_chunks positive data
  rw [none_] at whole
  exact some_ whole.symm

theorem partSizeFor_le (small : data.length ≤ (maxParts - 16) * largestBody) :
    partSizeFor data.length ≤ largestBody := by
  simp only [partSizeFor, maxParts, minPartSize, largestBody] at small ⊢
  omega

theorem smallestPart_le {total : Nat} : smallestPart ≤ partSizeFor total :=
  le_trans (by decide) (le_max_left _ _)

theorem length_chunks_le : (chunks (partSizeFor data.length) data).length ≤ maxParts - 16 := by
  have spread : data.length ≤ (maxParts - 16) * partSizeFor data.length := by
    simp only [partSizeFor, maxParts, minPartSize]
    omega
  rw [chunks, List.length_map, List.length_range]
  apply Nat.le_of_lt_succ
  rw [Nat.div_lt_iff_lt_mul partSizeFor_pos, Nat.succ_mul]
  have positive := @partSizeFor_pos data.length
  omega

end

section
variable [Network] {served : Nat → Prop} {u : Upload} {b₁ : Bucket} {data : Bytes}
  {done : List (String × String)} {bodies rest : List Bytes} {index : Nat} {completed : String}

/-- The parts so far, and nothing else that changed. -/
def Sending (u : Upload) (b₁ : Bucket) (done : List (String × String)) (bodies : List Bytes)
    (b : Bucket) : Prop :=
  Uploading u done bodies b ∧ b = { b₁ with parts := b.parts }

omit [Network] in
theorem Sending.pending {b : Bucket} (sending : Sending u b₁ done bodies b) (pending : u ∈ b₁.pending) :
    u ∈ b.pending := by
  rw [sending.2]
  exact pending

theorem putPart_returns (prompt : Prompt served) (pending : u ∈ b₁.pending) (few : done.length < maxParts)
    (small : data.length ≤ largestBody) :
    Returns (fun s => Sending u b₁ done bodies s.far)
      (doRequest (putPart u (toString (done.length + 1)) data))
      (fun resp s => ∃ tag, resp.etag = some tag ∧
        Sending u b₁ (done ++ [(toString (done.length + 1), tag)]) (bodies ++ [data]) s.far) := by
  refine @doRequest_returns _ _ _ _ (fun resp b => ∃ tag, resp.etag = some tag ∧
    Sending u b₁ (done ++ [(toString (done.length + 1), tag)]) (bodies ++ [data]) b) prompt ?_ ?_
  · exact fun b sending => .hold (sending.pending pending) (by omega) (by omega) small
  · rintro b b' resp ⟨uploading, kept⟩ confirmed legible
    obtain ⟨_, etag, plain, rfl, tells⟩ := confirms_putPart confirmed
    obtain ⟨tag, named⟩ := legible.etag rfl
    obtain rfl := tells tag named
    refine ⟨tag, named, uploading.hold.snoc plain (by simp [Bucket.hold]), ?_⟩
    rw [kept]
    rfl

theorem uploadChunks_returns (prompt : Prompt served) (pending : u ∈ b₁.pending) (place : done.length = index)
    (listed : completed = done.foldl (fun text p => text ++ partElement p.1 p.2) "<CompleteMultipartUpload>")
    (few : done.length + rest.length ≤ maxParts) (small : ∀ chunk ∈ rest, chunk.length ≤ largestBody) :
    Returns (fun s => Sending u b₁ done bodies s.far) (uploadChunks u index rest completed)
      (fun text s => ∃ all, text ++ "</CompleteMultipartUpload>" = completion all ∧
        all.length = done.length + rest.length ∧ Sending u b₁ all (bodies ++ rest) s.far) := by
  subst place listed
  induction rest generalizing done bodies with
  | nil =>
    apply Returns.pure
    intro s sending
    rw [List.append_nil]
    exact ⟨done, rfl, rfl, sending⟩
  | cons chunk rest ih =>
    rw [List.length_cons] at few
    refine Returns.bind _ (putPart_returns prompt pending (by omega) (small chunk (by simp))) fun resp => ?_
    rintro s ⟨tag, tagged, sending⟩
    have next := @ih (done ++ [(toString (done.length + 1), tag)]) (bodies ++ [chunk])
      (by rw [List.length_append, List.length_singleton]; omega) fun c there => small c (by simp [there])
    rw [List.length_append, List.length_singleton, List.foldl_append] at next
    rw [tagged]
    refine Returns.returning_bind rfl (next.weaken _ (fun _ start => start) ?_) s sending
    rintro text t ⟨all, lists, count, sent⟩
    rw [List.append_assoc] at sent
    refine ⟨all, lists, ?_, sent⟩
    rw [count, List.length_cons]
    omega

theorem completeUpload_returns (prompt : Prompt served) (pending : u ∈ b₁.pending) (new : u ∉ b₁.past)
    (some_ : done ≠ []) (few : done.length ≤ maxParts)
    (large : ∀ body ∈ bodies.dropLast, smallestPart ≤ body.length) :
    Returns (fun s => Sending u b₁ done bodies s.far)
      (doRequest (completeUpload u (textBytes (completion done))))
      (fun resp s => (∃ text, resp.body = .ok text ∧ hasError text = false) ∧
        s.far = ({ b₁ with parts := s.far.parts }.write u.key bodies.flatten).close u) := by
  refine @doRequest_returns _ _ _ _ (fun resp b => (∃ text, resp.body = .ok text ∧ hasError text = false) ∧
    b = ({ b₁ with parts := b.parts }.write u.key bodies.flatten).close u) prompt ?_ ?_
  · intro b sending
    exact .complete (sending.pending pending) some_ few sending.1.numbered sending.1.plain
      sending.1.held large
  · rintro b b' resp ⟨uploading, kept⟩ confirmed legible
    obtain ⟨text, told, clean⟩ := legible.body
    refine ⟨⟨text, told, clean⟩, ?_⟩
    rcases confirms_completeUpload confirmed with carried | ⟨past, rfl⟩ | refused
    · have completing : Completing u done bodies ⟨b₁, []⟩ ⟨b, []⟩ :=
        .inl ⟨uploading, kept, List.prefix_rfl⟩
      exact (completing.carried (r := completeUpload u (textBytes (completion done))) rfl carried).1
    · rw [kept] at past
      exact absurd past new
    · rw [refused text told] at clean
      contradiction

theorem startUpload_returns (prompt : Prompt served) {key : String} :
    Returns (fun s => s.far = b₁) (doRequest (startUpload key)) (fun resp s => ∃ id text,
      (⟨key, id⟩ ∉ b₁.pending ∧ ⟨key, id⟩ ∉ b₁.past) ∧ s.far = b₁.start ⟨key, id⟩ ∧
        resp.body = .ok text ∧ Encloses text "UploadId" id) := by
  refine @doRequest_returns _ _ _ (fun b => b = b₁) (fun resp b => ∃ id text,
    (⟨key, id⟩ ∉ b₁.pending ∧ ⟨key, id⟩ ∉ b₁.past) ∧ b = b₁.start ⟨key, id⟩ ∧ resp.body = .ok text ∧
      Encloses text "UploadId" id) prompt (fun _ _ => .start) ?_
  rintro b b' resp rfl confirmed legible
  obtain ⟨id, unknown, rfl, tells⟩ := confirms_startUpload confirmed
  obtain ⟨text, told, _⟩ := legible.body
  exact ⟨id, text, unknown, rfl, told, tells text told⟩

theorem uploadParts_returns (prompt : Prompt served) (pending : u ∈ b₁.pending) (new : u ∉ b₁.past)
    (some_ : data ≠ []) (small : data.length ≤ (maxParts - 16) * largestBody) :
    Returns (fun s => s.far = b₁) (uploadParts u data)
      (fun _ s => s.far = ({ b₁ with parts := s.far.parts }.write u.key data).close u) := by
  have whole : (chunks (partSizeFor data.length) data).flatten = data := flatten_chunks partSizeFor_pos data
  have few := @length_chunks_le data
  have fits : ∀ chunk ∈ chunks (partSizeFor data.length) data, chunk.length ≤ largestBody :=
    fun chunk there => (length_le_of_mem_chunks there).trans (partSizeFor_le small)
  have large : ∀ body ∈ (chunks (partSizeFor data.length) data).dropLast, smallestPart ≤ body.length := by
    intro body there
    rw [length_of_mem_dropLast partSizeFor_pos there]
    exact smallestPart_le
  have all_ : 0 < (chunks (partSizeFor data.length) data).length :=
    List.length_pos_of_ne_nil (chunks_ne_nil partSizeFor_pos some_)
  have sends : Returns (fun s => Sending u b₁ [] [] s.far)
      (uploadChunks u 0 (chunks (partSizeFor data.length) data) "<CompleteMultipartUpload>") _ :=
    uploadChunks_returns prompt pending rfl rfl (by simp only [maxParts] at few ⊢; simp; omega) fits
  refine Returns.bind _ (sends.weaken _ ?_ fun _ _ returned => returned) fun text => ?_
  · rintro s rfl
    exact ⟨.nil, rfl⟩
  rintro s ⟨done, lists, count, sending⟩
  rw [List.length_nil, Nat.zero_add] at count
  rw [lists]
  have some' : done ≠ [] := List.ne_nil_of_length_pos (count ▸ all_)
  have few' : done.length ≤ maxParts := count ▸ few.trans (Nat.sub_le _ _)
  refine Returns.bind _ (completeUpload_returns prompt pending new some' few' large) ?_ s sending
  rintro resp t ⟨⟨body, told, clean⟩, completed⟩
  rw [whole] at completed
  have read : (resp.body.mapError fun e => MoonclipError.storage ("S3 multipart complete: " ++ e)) =
    .ok body := by
    rw [told]
    rfl
  rw [read]
  refine ⟨(), t, ?_, completed⟩
  refine bind_eq_ok.mpr ⟨body, t, returning_eq_ok.mpr ⟨rfl, rfl⟩, ?_⟩
  rw [clean]
  rfl

omit [Network] in
theorem close_start {b : Bucket} {u : Upload} (unknown : u ∉ b.pending) :
    ((b.start u).close u).pending = b.pending := by
  simp only [Bucket.close, Bucket.start, List.filter_append, List.filter_singleton]
  simp only [ne_eq, not_true_eq_false, decide_false, Bool.cond_false, List.append_nil]
  exact List.filter_eq_self.mpr fun v there => by
    simpa using fun same : v = u => unknown (same ▸ there)

theorem putMultipart_returns (prompt : Prompt served) {config : S3Config} {relPath : String}
    (some_ : data ≠ [])
    (small : data.length ≤ (maxParts - 16) * largestBody) :
    Returns (fun s => s.far = b₁) (putMultipart config relPath data) (fun _ s =>
      s.far.objects = b₁.objects.put (config.objectKey relPath) data ∧ s.far.pending = b₁.pending) := by
  refine Returns.bind _ (startUpload_returns prompt) fun resp => ?_
  rintro s ⟨id, text, unknown, started, told, encloses⟩
  have told' : (resp.body.mapError fun e => MoonclipError.storage ("S3 multipart start: " ++ e)) =
    .ok text := by
    rw [told]
    rfl
  have read : extractXmlValue text.toList "UploadId" = some id :=
    encloses.read rfl (by decide) ⟨_, rfl, by decide⟩
  have sent : Returns (fun s => s.far = b₁.start ⟨config.objectKey relPath, id⟩)
      (uploadParts ⟨config.objectKey relPath, id⟩ data) _ :=
    uploadParts_returns prompt (by simp [Bucket.start]) unknown.2 some_ small
  refine (Returns.returning_bind told' ?_ :
    Returns (fun s => s.far = b₁.start ⟨config.objectKey relPath, id⟩) _ _) s started
  rw [read]
  refine Returns.returning_bind rfl <| Returns.cleaningUp <|
    sent.weaken _ (fun _ start => start) fun _ t completed => ?_
  rw [completed]
  exact ⟨rfl, close_start unknown.1⟩

end

end S3
end Moonclip
