import Aquarius.HttpAccept

/-!
# The HTTP Query

`http::query` (`ip/http.hpp`): one read of a response by a client. It reads up to the blank
line, receives the body, takes the status from the first line and hands the buffer to
`filling_buffer`, provided the status is `ok`.

Two hand-written pieces of string code have to fit the ones that write a response. The status
line is split at every space and has to have three parts, so a reason phrase of several words
is not accepted. And the start line is consumed without its line end, which `deserialize` then
takes for the blank line behind the header fields.

## Main results

* `parseStatusLine_statusLine`: which entries of `statuses` survive their own status line.
* `endToEnd_iff`: **a response arrives** exactly when its status is not `ok` and its reason
  phrase is one word.
* `not_endToEnd_ok`: a response with the status `ok` arrives with its header in the body.
-/

open Decoding

namespace Aquarius

/-! ### The status line -/

/-- `string_to_status`: the entry with this number, or `internal_server_error`. -/
def stringToStatus (str : Bytes) : BitVec 32 :=
  ((statuses.find? fun p => integerText p.1.toInt = str).map Prod.fst).getD 500

/-- `parse_command_line<false>`: three parts with one space between them, of which the last is
not looked at. -/
def parseStatusLine (line : Bytes) : Except ErrorCode (HttpVersion × BitVec 32) :=
  match line.splitOn 32 with
  | [version, status, _] =>
      match stringToVersion version with
      | none => .error (httpStatus 505)
      | some v => .ok (v, stringToStatus status)
  | _ => .error asioEof

/-- How `query` ends. -/
inductive QueryResult where
  /-- a read failed -/
  | failed
  | thrown
  | undefined
  /-- the status line was not accepted -/
  | malformed (ec : ErrorCode)
  /-- `co_return status` -/
  | refused (status : BitVec 32)
  /-- `filling_buffer(buffer)` -/
  | filled (buffer : Bytes)

/-- What `query` does with the buffer it has received. A line end that is not found is `npos`,
which `substr` and `consume` cut to the size. -/
def queryBuffer (buffer : Bytes) : QueryResult :=
  let headerLine := buffer.takeWhile fun b => !isCrlf b
  match parseStatusLine headerLine with
  | .error ec => .malformed ec
  | .ok (_, status) =>
      if status ≠ 200 then .refused status else .filled (buffer.drop headerLine.length)

/-- `http::query` on the bytes of a connection, with `k` bytes read beyond the blank line. -/
def httpQuery (k : ℕ) (stream : Bytes) : QueryResult :=
  match readUntil k stream with
  | none => .failed
  | some (_, buffer, stream) =>
      match httpRecv buffer [stream] with
      | .failed => .failed
      | .thrown => .thrown
      | .undefined => .undefined
      | .received buffer _ => queryBuffer buffer

/-- The status `query` has extracted. -/
def QueryResult.status : QueryResult → Option (BitVec 32)
  | refused status => some status
  | filled _ => some 200
  | _ => none

/-! ### Responses -/

/-- The line `commit_raw_response_header` writes, without its line end. -/
def statusLine (status : BitVec 32) : Bytes :=
  textBytes ("HTTP/1.1 " ++ toString status.toInt ++ " " ++ statusToString status)

/-- The reason phrase is one word. -/
def OneWord (status : BitVec 32) : Prop := 32 ∉ textBytes (statusToString status)

instance (status : BitVec 32) : Decidable (OneWord status) :=
  inferInstanceAs (Decidable (32 ∉ textBytes (statusToString status)))

/-- There is neither a space nor a line end in the text of a number. -/
theorem integerText_plain (v : ℤ) : ∀ b ∈ integerText v, b ≠ 32 ∧ isCrlf b = false := by
  have hdecimal : ∀ n, ∀ b ∈ decimal n, b ≠ 32 ∧ isCrlf b = false := by
    intro n b hb
    have hdigit := isDigit_of_mem_decimal hb
    have hspace : b ≠ 32 := by
      rintro rfl
      cases hdigit
    exact ⟨hspace, isCrlf_of_isDigit hdigit⟩
  intro b hb
  rw [integerText] at hb
  split at hb
  · rcases List.mem_cons.mp hb with rfl | hb
    · decide
    · exact hdecimal _ b hb
  · exact hdecimal _ b hb

/-- A status of the table is found again under its number: different numbers have different texts. -/
theorem stringToStatus_integerText {status : BitVec 32} (hstatus : status ∈ statuses.map Prod.fst) :
    stringToStatus (integerText status.toInt) = status := by
  obtain ⟨p, hp, rfl⟩ := List.mem_map.mp hstatus
  have hsome : (statuses.find? fun q => integerText q.1.toInt = integerText p.1.toInt).isSome := by
    rw [List.find?_isSome]
    exact ⟨p, hp, decide_eq_true rfl⟩
  obtain ⟨q, hq⟩ := Option.isSome_iff_exists.mp hsome
  have hfound := List.find?_some hq
  have htext : integerText q.1.toInt = integerText p.1.toInt := of_decide_eq_true hfound
  have hnumber := congrArg leadingInteger htext
  rw [leadingInteger_integerText, leadingInteger_integerText] at hnumber
  rw [stringToStatus, hq]
  exact BitVec.toInt_inj.mp hnumber

/-- The numbers of the table are written in decimal. -/
theorem number_table : ∀ p ∈ statuses, textBytes (toString p.1.toInt) = integerText p.1.toInt := by
  decide +kernel

/-- The reason phrases of the table have no line end in them. -/
theorem phrase_table : ∀ p ∈ statuses, ∀ b ∈ textBytes p.2, isCrlf b = false := by
  have htable : ∀ p ∈ statuses, (textBytes p.2).all (fun b => !isCrlf b) = true := by
    decide +kernel
  intro p hp b hb
  simpa only [Bool.not_eq_true'] using List.all_eq_true.mp (htable p hp) b hb

/-- No reason phrase has a line end in it. -/
theorem isCrlf_statusToString (status : BitVec 32) :
    ∀ b ∈ textBytes (statusToString status), isCrlf b = false := by
  rw [statusToString]
  cases hlookup : statuses.lookup status with
  | none => exact phrase_table (0, "Unknown") List.mem_cons_self
  | some phrase =>
      obtain ⟨l₁, l₂, hl, -⟩ := List.lookup_eq_some_iff.mp hlookup
      have hmem : (status, phrase) ∈ statuses := by
        rw [hl]
        exact List.mem_append_right l₁ List.mem_cons_self
      exact phrase_table (status, phrase) hmem

/-- The three parts of a status line. -/
theorem statusLine_eq {status : BitVec 32} (hstatus : status ∈ statuses.map Prod.fst) :
    statusLine status = [72, 84, 84, 80, 47, 49, 46, 49] ++ 32 ::
      (integerText status.toInt ++ 32 :: textBytes (statusToString status)) := by
  obtain ⟨p, hp, rfl⟩ := List.mem_map.mp hstatus
  have hversion : textBytes "HTTP/1.1 " = [72, 84, 84, 80, 47, 49, 46, 49, 32] := by decide
  have hspace : textBytes " " = [32] := by decide
  rw [statusLine, textBytes_append, textBytes_append, textBytes_append, number_table p hp,
    hversion, hspace]
  simp

/-- **A status line is read back** when its reason phrase is one word, and not at all
otherwise: the reader wants three parts. -/
theorem parseStatusLine_statusLine {status : BitVec 32}
    (hstatus : status ∈ statuses.map Prod.fst) :
    (parseStatusLine (statusLine status)).toOption =
      if OneWord status then some (.http11, status) else none := by
  have hsplit : (statusLine status).splitOn 32 = [72, 84, 84, 80, 47, 49, 46, 49] ::
      integerText status.toInt :: (textBytes (statusToString status)).splitOn 32 := by
    rw [statusLine_eq hstatus, List.splitOn_append_cons_self_of_not_mem (by decide),
      List.splitOn_append_cons_self_of_not_mem]
    exact fun h => (integerText_plain _ 32 h).1 rfl
  rw [parseStatusLine, hsplit]
  by_cases hword : OneWord status
  · rw [if_pos hword, List.splitOn_eq_singleton hword]
    simp only [stringToStatus_integerText hstatus]
    rfl
  · rw [if_neg hword]
    -- a space in the phrase makes at least two parts of it
    obtain ⟨a, b, hphrase⟩ := List.append_of_mem (not_not.mp hword)
    obtain ⟨a₁, as, ha⟩ := List.exists_cons_of_ne_nil (List.splitOn_ne_nil 32 a)
    obtain ⟨b₁, bs, hb⟩ := List.exists_cons_of_ne_nil (List.splitOn_ne_nil 32 b)
    rw [hphrase, List.splitOn_append_cons_self, ha, hb]
    cases as with
    | nil => rfl
    | cons a₂ as => rfl

/-- No status line has a line end in it. -/
theorem isCrlf_statusLine {status : BitVec 32} (hstatus : status ∈ statuses.map Prod.fst) :
    ∀ b ∈ statusLine status, isCrlf b = false := by
  have hversion : ([72, 84, 84, 80, 47, 49, 46, 49] : Bytes).all (fun b => !isCrlf b) = true := by
    decide
  intro b hb
  rw [statusLine_eq hstatus] at hb
  rcases List.mem_append.mp hb with hb | hb
  · simpa only [Bool.not_eq_true'] using List.all_eq_true.mp hversion b hb
  · rcases List.mem_cons.mp hb with rfl | hb
    · rfl
    · rcases List.mem_append.mp hb with hb | hb
      · exact (integerText_plain _ b hb).2
      · rcases List.mem_cons.mp hb with rfl | hb
        · rfl
        · exact isCrlf_statusToString status b hb

/-- The bytes of a response with header fields and a body. -/
def responseBytes (status : BitVec 32) (fields : HttpFields) (body : Bytes) : Bytes :=
  makeResponse (httpStatus status) (HttpHeader.serialize fields ++ body)

/-- The status line, its line end, the header block and the body. -/
theorem responseBytes_eq (status : BitVec 32) (fields : HttpFields) (body : Bytes) :
    responseBytes status fields body =
      statusLine status ++ (crlf ++ (HttpHeader.serialize fields ++ body)) := by
  have hne : (HttpHeader.serialize fields ++ body).length ≠ 0 := by
    simp [HttpHeader.serialize, crlf]
  rw [responseBytes, makeResponse, if_pos hne, rawResponseHeader, List.append_assoc]
  rfl

/-- The first line of a response. -/
theorem takeWhile_responseBytes {status : BitVec 32} (hstatus : status ∈ statuses.map Prod.fst)
    (fields : HttpFields) (body : Bytes) :
    (responseBytes status fields body).takeWhile (fun b => !isCrlf b) = statusLine status := by
  have hline : ∀ b ∈ statusLine status, (!isCrlf b) = true := fun b hb => by
    rw [isCrlf_statusLine hstatus b hb]
    rfl
  rw [responseBytes_eq, List.takeWhile_append_of_pos hline]
  simp [crlf, isCrlf]

/-- What `query` makes of a response it has received completely. -/
theorem queryBuffer_responseBytes {status : BitVec 32}
    (hstatus : status ∈ statuses.map Prod.fst) (fields : HttpFields) (body : Bytes) :
    if OneWord status then
      queryBuffer (responseBytes status fields body) =
        if status ≠ 200 then .refused status
        else .filled (crlf ++ (HttpHeader.serialize fields ++ body))
    else ∃ ec, queryBuffer (responseBytes status fields body) = .malformed ec := by
  have htable := parseStatusLine_statusLine hstatus
  have hdrop : (responseBytes status fields body).drop (statusLine status).length =
      crlf ++ (HttpHeader.serialize fields ++ body) := by
    rw [responseBytes_eq, List.drop_left]
  rw [queryBuffer, takeWhile_responseBytes hstatus]
  by_cases hword : OneWord status
  · rw [if_pos hword] at htable ⊢
    cases hparse : parseStatusLine (statusLine status) with
    | error ec =>
        rw [hparse] at htable
        cases htable
    | ok r =>
        rw [hparse] at htable
        obtain rfl := Option.some.inj htable
        simp only [hdrop]
  · rw [if_neg hword] at htable ⊢
    cases hparse : parseStatusLine (statusLine status) with
    | error ec => exact ⟨ec, rfl⟩
    | ok r =>
        rw [hparse] at htable
        cases htable

/-! ### End to end -/

/-- The response has been received completely: the two reads of `query` end with exactly its
bytes in the buffer. -/
def Received (k : ℕ) (stream response : Bytes) : Prop :=
  ∃ endPos buffer rest rest', readUntil k stream = some (endPos, buffer, rest) ∧
    httpRecv buffer [rest] = .received response rest'

/-- `query` goes on with what was received. -/
theorem query_of_received {k : ℕ} {stream response : Bytes} (h : Received k stream response) :
    httpQuery k stream = queryBuffer response := by
  obtain ⟨endPos, buffer, rest, rest', hread, hrecv⟩ := h
  rw [httpQuery, hread]
  simp only [hrecv]

/-- The status is the one that was written, and for `ok` the callback is handed a buffer from
which a new header is read with exactly the fields, and which then holds the body. -/
def EndToEnd (k : ℕ) (stream : Bytes) (status : BitVec 32) (fields : HttpFields)
    (body : Bytes) : Prop :=
  (httpQuery k stream).status = some status ∧
    (status = 200 → ∃ buffer, httpQuery k stream = .filled buffer ∧
      HttpHeader.deserialize {} buffer = ({ fields := fields }, .ok body))

/-- The line end left of the start line ends the header fields before the first. -/
theorem deserialize_crlf (s : Bytes) :
    HttpHeader.deserialize {} (crlf ++ s) = ({}, .ok s) := rfl

/-- A status other than `ok` arrives when its reason phrase is one word. -/
theorem endToEnd_of_oneWord {k : ℕ} {stream : Bytes} {status : BitVec 32} {fields : HttpFields}
    {body : Bytes} (hstatus : status ∈ statuses.map Prod.fst)
    (hreceived : Received k stream (responseBytes status fields body)) (hok : status ≠ 200)
    (hword : OneWord status) : EndToEnd k stream status fields body := by
  have hquery := queryBuffer_responseBytes hstatus fields body
  rw [if_pos hword, if_pos hok, ← query_of_received hreceived] at hquery
  rw [EndToEnd, hquery]
  exact ⟨rfl, fun h => absurd h hok⟩

/-- A reason phrase of several words does not arrive. -/
theorem not_endToEnd_of_words {k : ℕ} {stream : Bytes} {status : BitVec 32} {fields : HttpFields}
    {body : Bytes} (hstatus : status ∈ statuses.map Prod.fst)
    (hreceived : Received k stream (responseBytes status fields body))
    (hword : ¬OneWord status) : ¬EndToEnd k stream status fields body := by
  have hquery := queryBuffer_responseBytes hstatus fields body
  rw [if_neg hword, ← query_of_received hreceived] at hquery
  obtain ⟨ec, hquery⟩ := hquery
  rintro ⟨h, -⟩
  rw [hquery] at h
  cases h

/-- What the callback is handed of a response with the status `ok`. -/
theorem query_ok {k : ℕ} {stream : Bytes} {fields : HttpFields} {body : Bytes}
    (hreceived : Received k stream (responseBytes 200 fields body)) :
    httpQuery k stream = .filled (crlf ++ (HttpHeader.serialize fields ++ body)) := by
  have hstatus : (200 : BitVec 32) ∈ statuses.map Prod.fst := by decide
  have hquery := queryBuffer_responseBytes hstatus fields body
  rwa [if_pos (by decide), if_neg (by decide), ← query_of_received hreceived] at hquery

/-- A response with the status `ok` does not arrive: a header with fields is left in the
buffer, in front of the body. -/
theorem not_endToEnd_of_ok {k : ℕ} {stream : Bytes} {fields : HttpFields} {body : Bytes}
    (hreceived : Received k stream (responseBytes 200 fields body)) (hfields : fields ≠ []) :
    ¬EndToEnd k stream 200 fields body := by
  rintro ⟨-, h⟩
  obtain ⟨buffer, hfilled, hread⟩ := h rfl
  rw [query_ok hreceived] at hfilled
  obtain rfl := QueryResult.filled.inj hfilled
  rw [deserialize_crlf] at hread
  exact hfields (congrArg (fun r => r.1.fields) hread).symm

/-- **When a response arrives.** For every `http_status`, all header fields with the
`Content-Length` of the body among them, and however the bytes came in, as long as they were
received completely: exactly when the status is not `ok` and its reason phrase is one word. -/
theorem endToEnd_iff (k : ℕ) (stream : Bytes) (status : BitVec 32)
    (hstatus : status ∈ statuses.map Prod.fst) (fields : HttpFields) (body : Bytes)
    (hlength : (contentLengthKey, decimal body.length) ∈ fields)
    (hreceived : Received k stream (responseBytes status fields body)) :
    EndToEnd k stream status fields body ↔ status ≠ 200 ∧ OneWord status := by
  constructor
  · intro h
    refine ⟨?_, ?_⟩
    · rintro rfl
      exact not_endToEnd_of_ok hreceived (List.ne_nil_of_mem hlength) h
    · by_contra hword
      exact not_endToEnd_of_words hstatus hreceived hword h
  · rintro ⟨hok, hword⟩
    exact endToEnd_of_oneWord hstatus hreceived hok hword

/-- The header fields of a body of two bytes. -/
def twoByteFields : HttpFields := [(contentLengthKey, [50])]

/-- A response that comes in as a whole is received completely. -/
theorem received_whole {status : BitVec 32} (endPos : ℕ)
    (hread : readUntil 2 (responseBytes status twoByteFields [104, 105]) =
      some (endPos, responseBytes status twoByteFields [104, 105], []))
    (hrecv : httpRecv (responseBytes status twoByteFields [104, 105]) [[]] =
      .received (responseBytes status twoByteFields [104, 105]) [[]]) :
    Received 2 (responseBytes status twoByteFields [104, 105])
      (responseBytes status twoByteFields [104, 105]) :=
  ⟨endPos, _, [], [[]], hread, hrecv⟩

/-- `403 Forbidden` is received completely. -/
theorem received_forbidden : Received 2 (responseBytes 403 twoByteFields [104, 105])
    (responseBytes 403 twoByteFields [104, 105]) :=
  received_whole 45 (by decide +kernel) (by decide +kernel)

/-- `200 OK` is received completely. -/
theorem received_ok : Received 2 (responseBytes 200 twoByteFields [104, 105])
    (responseBytes 200 twoByteFields [104, 105]) :=
  received_whole 38 (by decide +kernel) (by decide +kernel)

/-- `403 Forbidden` arrives. -/
theorem endToEnd_forbidden :
    EndToEnd 2 (responseBytes 403 twoByteFields [104, 105]) 403 twoByteFields [104, 105] :=
  (endToEnd_iff 2 _ 403 (by decide +kernel) twoByteFields [104, 105] List.mem_cons_self
    received_forbidden).mpr ⟨by decide, by decide +kernel⟩

/-- **A response `200 OK`** with one header field and a body of two bytes: the field is well
formed, and the callback is handed a buffer whose header has no field and whose body starts
with the header block. -/
theorem not_endToEnd_ok :
    (∀ f ∈ twoByteFields, FieldWellFormed f) ∧ twoByteFields.Distinct ∧
      ¬EndToEnd 2 (responseBytes 200 twoByteFields [104, 105]) 200 twoByteFields [104, 105] := by
  refine ⟨?_, List.pairwise_singleton _ _,
    not_endToEnd_of_ok received_ok (List.cons_ne_nil _ _)⟩
  intro f hf
  obtain rfl := List.mem_singleton.mp hf
  exact wellFormed_contentLength 2

end Aquarius
