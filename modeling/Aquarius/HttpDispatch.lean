import Aquarius.ContentLengthReaders
import Aquarius.HttpAccept

/-!
# Dispatching a Request

What becomes of one well-formed request for a registered path in `http::accept` (`ip/http.hpp`), whatever
its method, target, fields and body are, however its bytes are grouped and whatever follows them: its
start line is split and its method and version are found in their tables, the first blank line is that
of its header block, and `recv` takes the body.

`recv` returns `eof` when the length it finds is zero. A request without a body has no length, so the
loop ends there, without a response.

## Main results

* `turn_request`: **every well-formed request gets as far as `recv`**.
* `handed_iff`: exactly when a request is handed to its context.
* `not_handed_get`: a `GET` without a body ends the connection.
-/

open Decoding

namespace Aquarius

/-- `method_to_string` -/
def methodToString (m : HttpMethod) : Bytes :=
  ((httpMethods.find? (·.1 = m)).map Prod.snd).getD (textBytes "UNKNOWN")

/-- `version_to_string` -/
def versionToString (v : HttpVersion) : Bytes :=
  ((httpVersions.find? (·.1 = v)).map Prod.snd).getD (textBytes "UNKNOWN")

/-- A start line. -/
def startLine (m : HttpMethod) (target : Bytes) (v : HttpVersion) : Bytes :=
  [32].intercalate [methodToString m, target, versionToString v]

/-- A well-formed request for a path with a context, as it is sent. `Content-Length` is there exactly
when there is a body, and says its length. -/
structure WellFormedRequest (server : HttpServer) where
  method : HttpMethod
  target : Bytes
  url : UrlView
  version : HttpVersion
  fields : HttpFields
  body : Bytes
  method_ne : method ≠ .options
  target_wf : ∀ b ∈ target, b ≠ 32 ∧ isCrlf b = false
  parses : server.parseOriginForm target = .ok url
  registered : server.contexts url.path = .http
  fields_wf : ∀ f ∈ fields, FieldWellFormed f
  length_wf : ∀ v, (contentLengthKey, v) ∈ fields → body ≠ [] ∧ v = decimal body.length
  length_of_body : body ≠ [] → (contentLengthKey, decimal body.length) ∈ fields
  size_le : (startLine method target version ++ crlf ++ HttpHeader.serialize fields).length +
    body.length ≤ maxSize

namespace WellFormedRequest

variable {server : HttpServer}

/-- The header block. -/
def block (r : WellFormedRequest server) : Bytes := HttpHeader.serialize r.fields

/-- Everything in front of the body. -/
def head (r : WellFormedRequest server) : Bytes :=
  startLine r.method r.target r.version ++ crlf ++ r.block

/-- The bytes of the request. -/
def bytes (r : WellFormedRequest server) : Bytes := r.head ++ r.body

/-- What was read beyond the header block, when the transport offers `k` bytes. -/
def readBeyond (r : WellFormedRequest server) (k : ℕ) (following : Bytes) : Bytes :=
  (r.body ++ following).take (min k (maxSize - r.head.length))

/-- `accept` hands the request to the context of its path first of all, with its own router and
method. -/
def Handed (r : WellFormedRequest server) (storage : ℕ → Storage) (offered : ℕ → ℕ)
    (following : Bytes) : Prop :=
  ∃ buffer later, (accept server storage offered (r.bytes ++ following)).dispatched =
    ⟨r.method, r.url.path, buffer⟩ :: later

end WellFormedRequest

/-! ### The start line -/

/-- A method is found under its text. -/
theorem stringToMethod_methodToString (m : HttpMethod) :
    stringToMethod (methodToString m) = some m := by
  cases m <;> decide

/-- A version is found under its text. -/
theorem stringToVersion_versionToString (v : HttpVersion) :
    stringToVersion (versionToString v) = some v := by
  cases v <;> decide

/-- There is neither a space nor a line end in the text of a method or of a version. -/
private theorem token_wf (m : HttpMethod) (v : HttpVersion) :
    (∀ b ∈ methodToString m, b ≠ 32 ∧ isCrlf b = false) ∧
      ∀ b ∈ versionToString v, b ≠ 32 ∧ isCrlf b = false := by
  have hall : ((methodToString m ++ versionToString v).all fun b => b != 32 && !isCrlf b) = true := by
    cases m <;> cases v <;> decide
  have hbyte : ∀ b ∈ methodToString m ++ versionToString v, b ≠ 32 ∧ isCrlf b = false := by
    intro b hb
    have h := List.all_eq_true.mp hall b hb
    simpa using h
  exact ⟨fun b hb => hbyte b (List.mem_append_left _ hb),
    fun b hb => hbyte b (List.mem_append_right _ hb)⟩

section StartLine

variable {m : HttpMethod} {target : Bytes} {v : HttpVersion}
  (htarget : ∀ b ∈ target, b ≠ 32 ∧ isCrlf b = false)

include htarget

/-- There is no line end in a start line. -/
theorem isCrlf_startLine : ∀ b ∈ startLine m target v, isCrlf b = false := by
  have htoken := token_wf m v
  intro b hb
  simp only [startLine, List.intercalate, List.intersperse, List.flatten_cons, List.flatten_nil,
    List.mem_append, List.mem_singleton, List.not_mem_nil, or_false] at hb
  rcases hb with hb | rfl | hb | rfl | hb
  · exact (htoken.1 b hb).2
  · rfl
  · exact (htarget b hb).2
  · rfl
  · exact (htoken.2 b hb).2

/-- **A start line is parsed** into its parts. -/
theorem parseCommandLine_startLine {parseOriginForm : Bytes → Except ErrorCode UrlView}
    {url : UrlView} (hparses : parseOriginForm target = .ok url) :
    parseCommandLine parseOriginForm (startLine m target v) = .ok (m, url, v) := by
  have htoken := token_wf m v
  have hsplit : (startLine m target v).splitOn 32 = [methodToString m, target, versionToString v] := by
    refine List.splitOn_intercalate 32 ?_ (List.cons_ne_nil _ _)
    intro l hl
    simp only [List.mem_cons, List.not_mem_nil, or_false] at hl
    rcases hl with rfl | rfl | rfl
    · exact fun h => (htoken.1 32 h).1 rfl
    · exact fun h => (htarget 32 h).1 rfl
    · exact fun h => (htoken.2 32 h).1 rfl
  rw [parseCommandLine, hsplit]
  simp only [stringToMethod_methodToString, hparses, stringToVersion_versionToString]

end StartLine

/-! ### The blank line -/

/-- No blank line starts in a text without a carriage return. -/
private theorem find_twoCrlf_append {text : Bytes} (h : ∀ b ∈ text, b ≠ 13) (s : Bytes) :
    find twoCrlf (text ++ s) = (find twoCrlf s).map (· + text.length) := by
  induction text with
  | nil => simp
  | cons b text ih =>
      have hb : b ≠ 13 := h b List.mem_cons_self
      have hpre : ¬ twoCrlf.isPrefixOf (b :: (text ++ s)) = true := by
        rw [List.isPrefixOf_iff_prefix, twoCrlf, List.cons_prefix_cons]
        exact fun hcons => hb hcons.1.symm
      rw [List.cons_append, find, if_neg hpre, ih fun c hc => h c (List.mem_cons_of_mem b hc),
        Option.map_map]
      rfl

/-- A line that is not empty puts the blank line off, by its length and that of its end. -/
private theorem find_twoCrlf_line {line : Bytes} (hne : line ≠ []) (h : ∀ b ∈ line, b ≠ 13)
    (s : Bytes) :
    find twoCrlf (13 :: 10 :: (line ++ s)) = (find twoCrlf s).map (· + (line.length + 2)) := by
  obtain ⟨b, line, rfl⟩ := List.exists_cons_of_ne_nil hne
  have hb : b ≠ 13 := h b List.mem_cons_self
  have hfirst : ¬ twoCrlf.isPrefixOf (13 :: 10 :: (b :: line ++ s)) = true := by
    simp [twoCrlf, List.isPrefixOf, hb.symm]
  have hsecond : ¬ twoCrlf.isPrefixOf (10 :: (b :: line ++ s)) = true := by
    simp [twoCrlf, List.isPrefixOf]
  rw [find, if_neg hfirst, find, if_neg hsecond, find_twoCrlf_append h, Option.map_map,
    Option.map_map]
  rfl

/-- The line of a well-formed field is not empty, and has no carriage return in it. -/
private theorem fieldLine_wf {f : Bytes × Bytes} (hf : FieldWellFormed f) :
    fieldLine f ≠ [] ∧ ∀ b ∈ fieldLine f, b ≠ 13 := by
  refine ⟨by simp [fieldLine], ?_⟩
  intro b hb
  simp only [fieldLine, List.mem_append, List.mem_cons] at hb
  rcases hb with hb | rfl | rfl | hb
  · exact (hf.name b hb).2.1
  · decide
  · decide
  · exact (hf.value b hb).1

/-- **The first blank line** behind a start line is the one the header block ends with. By induction on
the fields. -/
theorem find_twoCrlf_serialize {fields : HttpFields} (hfields : ∀ f ∈ fields, FieldWellFormed f) :
    ∃ pos, find twoCrlf (crlf ++ HttpHeader.serialize fields) = some pos ∧
      pos + 4 = (crlf ++ HttpHeader.serialize fields).length := by
  induction fields with
  | nil => exact ⟨0, rfl, rfl⟩
  | cons f fields ih =>
      obtain ⟨pos, hfind, hpos⟩ := ih fun g hg => hfields g (List.mem_cons_of_mem f hg)
      obtain ⟨hne, hline⟩ := fieldLine_wf (hfields f List.mem_cons_self)
      have hcons : crlf ++ HttpHeader.serialize (f :: fields) =
          13 :: 10 :: (fieldLine f ++ (crlf ++ HttpHeader.serialize fields)) := by
        simp [HttpHeader.serialize, crlf]
      rw [hcons, find_twoCrlf_line hne hline, hfind]
      refine ⟨_, rfl, ?_⟩
      change pos + ((fieldLine f).length + 2) + 4 = _
      rw [List.length_cons, List.length_cons, List.length_append]
      omega

/-! ### Handing over -/

section Request

variable {server : HttpServer} (r : WellFormedRequest server)

/-- The head of a request can be read. -/
private theorem head_length_le : r.head.length + r.body.length ≤ maxSize := r.size_le

/-- The buffer `recv` is entered with can hold what is in it. -/
private theorem readBeyond_length_le (k : ℕ) (following : Bytes) :
    (r.block ++ r.readBeyond k following).length ≤ maxSize := by
  have hmax := head_length_le r
  have hhead : r.block.length ≤ r.head.length := by
    rw [WellFormedRequest.head, List.length_append]
    omega
  rw [List.length_append, WellFormedRequest.readBeyond, List.length_take]
  omega

/-- **Every well-formed request gets as far as `recv`**, with its header block in the buffer and its
method and path as they were sent. -/
theorem turn_request (storage : Storage) (k : ℕ) (following : Bytes) :
    turn server storage k (r.bytes ++ following) =
      takeRequest server storage r.method r.url (r.block ++ r.readBeyond k following)
        ((r.body ++ following).drop (min k (maxSize - r.head.length))) := by
  have hline := isCrlf_startLine (m := r.method) (v := r.version) r.target_wf
  have hno : ∀ b ∈ startLine r.method r.target r.version, b ≠ 13 := by
    rintro b hb rfl
    exact absurd (hline 13 hb) (by decide)
  obtain ⟨pos, hfind, hpos⟩ := find_twoCrlf_serialize r.fields_wf
  have hblank : find twoCrlf r.head =
      some (pos + (startLine r.method r.target r.version).length) := by
    rw [WellFormedRequest.head, WellFormedRequest.block, List.append_assoc,
      find_twoCrlf_append hno, hfind]
    rfl
  have hend : pos + (startLine r.method r.target r.version).length + 4 = r.head.length := by
    rw [WellFormedRequest.head, WellFormedRequest.block, List.append_assoc, List.length_append]
    omega
  have hmax := head_length_le r
  rw [WellFormedRequest.bytes, List.append_assoc]
  exact turn_startLine hline (parseCommandLine_startLine r.target_wf r.parses) r.method_ne hblank hend
    (show r.head.length ≤ maxSize by omega) k _

/-- A request is handed over when `recv` returns without error. -/
theorem handed_iff_received (storage : ℕ → Storage) (offered : ℕ → ℕ) (following : Bytes) :
    r.Handed storage offered following ↔
      ∃ received rest, httpRecv (r.block ++ r.readBeyond (offered 0) following)
        [(r.body ++ following).drop (min (offered 0) (maxSize - r.head.length))] =
          .received received rest := by
  have hturn := turn_request r (storage 0) (offered 0) following
  rw [takeRequest] at hturn
  rw [WellFormedRequest.Handed]
  cases hrecv : httpRecv (r.block ++ r.readBeyond (offered 0) following)
      [(r.body ++ following).drop (min (offered 0) (maxSize - r.head.length))] with
  | failed | thrown | undefined =>
      rw [hrecv] at hturn
      rw [accept_of_ended hturn]
      simp
  | received buffer rest =>
      simp only [hrecv, r.registered] at hturn
      rw [accept_of_next hturn]
      exact ⟨fun _ => ⟨_, _, rfl⟩, fun _ => ⟨_, _, rfl⟩⟩

/-- The bytes of the header block and behind it, in the buffer and in the stream. -/
private theorem available_length (k : ℕ) (following : Bytes) :
    (r.block ++ r.readBeyond k following).length +
        [(r.body ++ following).drop (min k (maxSize - r.head.length))].flatten.length =
      r.block.length + r.body.length + following.length := by
  rw [List.flatten_singleton, List.length_append, List.length_drop, WellFormedRequest.readBeyond,
    List.length_take, List.length_append]
  omega

/-- The field says the length of the body, which is not zero. -/
theorem contentLength_ownMention {k : ℕ} {following v : Bytes}
    (hown : OwnMention r.fields (r.readBeyond k following) v) :
    contentLength (r.block ++ r.readBeyond k following) = some (r.body.length : ℤ) ∧
      r.body ≠ [] := by
  obtain ⟨before, after, hfields, hfind⟩ := hown
  have hmem : (contentLengthKey, v) ∈ r.fields := by
    rw [hfields]
    exact List.mem_append_right before List.mem_cons_self
  obtain ⟨hbody, rfl⟩ := r.length_wf v hmem
  have hblock : r.block ++ r.readBeyond k following =
      fieldBlock (before.flatMap fun f => fieldLine f ++ crlf) r.body.length
        (HttpHeader.serialize after ++ r.readBeyond k following) := by
    rw [WellFormedRequest.block, hfields, serialize_append_cons]
    rfl
  have hmax : maxSize = 2 ^ 63 - 1 := rfl
  have hbound := head_length_le r
  have hsize := readBeyond_length_le r k following
  rw [WellFormedRequest.block] at hblock
  rw [hblock] at hfind
  rw [WellFormedRequest.block, hblock] at hsize
  have hfield := contentLength_field hfind hsize (by omega) []
  rw [List.append_nil] at hfield
  rw [WellFormedRequest.block, hblock]
  exact ⟨hfield, hbody⟩

/-- A mention of `Content-Length` that is not the field comes first, and the number behind it happens to
let `recv` go on: it is not zero, the difference to the size of the buffer does not wrap, and that many
bytes come, those of the header block counted. -/
def StrayLength (k : ℕ) (following : Bytes) : Prop :=
  ∃ pos v, find contentLengthKey (r.block ++ r.readBeyond k following) = some pos ∧
    (∀ v, ¬ OwnMention r.fields (r.readBeyond k following) v) ∧
    numberBehind ((r.block ++ r.readBeyond k following).drop (pos + 14)) = some v ∧ v ≠ 0 ∧
    ((r.block ++ r.readBeyond k following).length : ℤ) - 2 ^ 63 ≤ v ∧
    v ≤ r.block.length + r.body.length + following.length

/-- **When a request is handed over.** For every well-formed request to a registered path, with or
without a body, whatever the transport offers in each turn, whatever its query shows when it is copied
and whatever follows: `accept` hands it to the context, with its own router and method, if and only if
the first mention of `Content-Length` in the header block and what was read with it is the field itself,
which only a request with a body has, or the number behind another mention happens to do. -/
theorem handed_iff (storage : ℕ → Storage) (offered : ℕ → ℕ) (following : Bytes) :
    r.Handed storage offered following ↔
      (∃ v, OwnMention r.fields (r.readBeyond (offered 0) following) v) ∨
        StrayLength r (offered 0) following := by
  have hsize := readBeyond_length_le r (offered 0) following
  have havailable := available_length r (offered 0) following
  rw [handed_iff_received, exists_received_iff hsize]
  by_cases hown : ∃ v, OwnMention r.fields (r.readBeyond (offered 0) following) v
  · obtain ⟨v, hv⟩ := hown
    obtain ⟨hfound, hbody⟩ := contentLength_ownMention r hv
    have hpos : 0 < r.body.length := List.length_pos_of_ne_nil hbody
    have hmax : maxSize = 2 ^ 63 - 1 := rfl
    refine iff_of_true ⟨_, hfound, by omega, by omega, ?_⟩ (.inl ⟨v, hv⟩)
    omega
  · rw [contentLength_eq_mentionedNumber hsize, mentionedNumber]
    cases hfind : find contentLengthKey (r.block ++ r.readBeyond (offered 0) following) with
    | none =>
        constructor
        · rintro ⟨v, hv, hne, -⟩
          exact absurd (Option.some.inj hv).symm hne
        · rintro (h | ⟨pos, -, hpos, -⟩)
          · exact absurd h hown
          · cases hfind.symm.trans hpos
    | some pos =>
        constructor
        · rintro ⟨v, hv, hne, hwrap, hle⟩
          exact .inr ⟨pos, v, hfind, not_exists.mp hown, hv, hne, hwrap, by omega⟩
        · rintro (h | ⟨q, v, hq, -, hv, hne, hwrap, hle⟩)
          · exact absurd h hown
          · obtain rfl := Option.some.inj (hfind.symm.trans hq)
            exact ⟨v, hv, hne, hwrap, by omega⟩

end Request

/-- The path `/a` has a context. -/
private theorem contexts_oneContext : oneContext.contexts [47, 97] = .http := rfl

/-- `GET /a HTTP/1.1` with the field `Host: a`, and without a body. -/
def getRequest : WellFormedRequest oneContext where
  method := .get
  target := [47, 97]
  url := ⟨[47, 97], []⟩
  version := .http11
  fields := [([72, 111, 115, 116], [97])]
  body := []
  method_ne := HttpMethod.noConfusion
  target_wf := by simp [isCrlf]
  parses := rfl
  registered := contexts_oneContext
  fields_wf := by
    intro f hf
    obtain rfl := List.mem_singleton.mp hf
    exact ⟨by simp, by simp⟩
  length_wf := by simp [contentLengthKey]
  length_of_body h := absurd rfl h
  size_le := by decide

/-- **A request that is not answered.** The request is well formed and its path has a context, but the
connection is closed: nothing is dispatched, and nothing is written. -/
theorem not_handed_get :
    ¬ getRequest.Handed roomForTwo (fun _ => 0) [] ∧
      accept oneContext roomForTwo (fun _ => 0) getRequest.bytes = ⟨[], [], .closed⟩ := by
  have hturn : turn oneContext (roomForTwo 0) 0 (getRequest.bytes ++ []) = .ended .closed := by
    rw [turn_request, takeRequest]
    rfl
  have hended : accept oneContext roomForTwo (fun _ => 0) (getRequest.bytes ++ []) =
      ⟨[], [], .closed⟩ :=
    accept_of_ended hturn
  refine ⟨?_, by rw [← hended, List.append_nil]⟩
  rintro ⟨buffer, later, hdispatched⟩
  rw [hended] at hdispatched
  cases hdispatched

end Aquarius
