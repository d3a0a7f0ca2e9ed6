import Aquarius.HttpRecv
import Aquarius.HttpResponse

/-!
# The HTTP Accept Loop

`http::accept` (`ip/http.hpp`): one turn of the loop reads up to a blank line, takes the start
line off the buffer, receives the body and hands the buffer to the context of the path; the
loop repeats until a read fails.

`async_read_until` returns when the delimiter is in the buffer, with whatever else had arrived
by then behind it. How much that is depends on how the transport groups the bytes, so it is a
parameter, one number for each turn. Every turn starts with a buffer of its own: what the last
one held beyond its request is gone.

The query of a `GET` is handed on behind the body. What holds it is a view into the start line,
which is still in the buffer but no longer part of its contents. The `streambuf` moves or
reallocates what it holds when it has to make room, and from then on the view shows other bytes;
so the buffer's room and what is shown there are parameters too (`Storage`).

What the repository does not contain is a parameter as well: `boost::urls::parse_origin_form`
and the contexts registered. So is the answer to an `OPTIONS` request, which no context sees.

## Main results

* `turn_length`: every turn takes bytes off the stream, so the loop ends.
* `dispatched_iff`: **the requests dispatched are the requests sent** if and only if every
  header block was read together with exactly the body that belongs to it, and the query of
  every `GET` is still there when it is copied.
* `not_dispatched_together`: two requests that arrive at once.
-/

open Decoding

namespace Aquarius

/-! ### The start line -/

/-- What the code takes from a `boost::urls::url_view`: the decoded path, and the text of the
query parameters. -/
structure UrlView where
  path : Bytes
  params : Bytes
  deriving DecidableEq, Repr

/-- `enum class http_version` -/
inductive HttpVersion where
  | http10
  | http11
  deriving DecidableEq, Repr

/-- `http_methods`, in the order of the enumerators, so that the position of an entry is the
value of its method -/
def httpMethods : List (HttpMethod × Bytes) :=
  [(.post, [80, 79, 83, 84]), (.get, [71, 69, 84]), (.options, [79, 80, 84, 73, 79, 78, 83]),
   (.head, [72, 69, 65, 68]), (.put, [80, 85, 84]), (.delete, [68, 69, 76, 69, 84, 69])]

/-- `http_versions` -/
def httpVersions : List (HttpVersion × Bytes) :=
  [(.http10, [72, 84, 84, 80, 47, 49, 46, 48]), (.http11, [72, 84, 84, 80, 47, 49, 46, 49])]

/-- `string_to_method` -/
def stringToMethod (s : Bytes) : Option HttpMethod :=
  (httpMethods.find? (·.2 = s)).map Prod.fst

/-- `string_to_version` -/
def stringToVersion (s : Bytes) : Option HttpVersion :=
  (httpVersions.find? (·.2 = s)).map Prod.fst

/-- `boost::asio::error::eof` -/
def asioEof : ErrorCode := { value := 2 }

/-- `parse_command_line<true>`: three parts with one space between them. -/
def parseCommandLine (parseOriginForm : Bytes → Except ErrorCode UrlView) (line : Bytes) :
    Except ErrorCode (HttpMethod × UrlView × HttpVersion) :=
  match line.splitOn 32 with
  | [method, url, version] =>
      match stringToMethod method with
      | none => .error asioEof
      | some m =>
          match parseOriginForm url with
          | .error e => .error e
          | .ok u =>
              match stringToVersion version with
              | none => .error (httpStatus 505)
              | some v => .ok (m, u, v)
  | _ => .error asioEof

/-! ### The query -/

/-- The buffer of a turn, an `asio::streambuf`, as it makes room: how many characters it can take
when `async_read_until` returns, and what a view of what is no longer part of its contents shows
once these have been moved or freed. -/
structure Storage where
  room : ℕ
  seen : ℕ → UInt8

namespace Storage

variable (storage : Storage) (read : ℕ)

/-- How many characters `sputn` copies from the view before the contents are moved, when `read`
bytes have been read into the buffer in between: those there is room for, and the one that
`overflow` is called with. A read there is no room for has moved the contents already. -/
def intact : ℕ :=
  if read ≤ storage.room then storage.room - read + 1 else 0

/-- What `buffer.sputn(params.data(), params.size())` appends. -/
def sputn (params : Bytes) : Bytes :=
  params.mapIdx fun j b => if j < storage.intact read then b else storage.seen j

/-- The view still shows what comes behind the characters copied before the move. -/
def Shows (params : Bytes) : Prop :=
  ∀ j b, params[j]? = some b → storage.intact read ≤ j → storage.seen j = b

variable {storage read}

/-- `sputn` appends as many bytes as the view has. -/
theorem length_sputn (params : Bytes) : (storage.sputn read params).length = params.length :=
  List.length_mapIdx

/-- The query is copied as it was sent exactly when the view still shows it. -/
theorem sputn_eq_iff {params : Bytes} :
    storage.sputn read params = params ↔ storage.Shows read params := by
  have hget (j : ℕ) : (storage.sputn read params)[j]? =
      params[j]?.map fun b => if j < storage.intact read then b else storage.seen j := by
    rw [sputn, List.getElem?_mapIdx]
  constructor
  · intro h j b hb hj
    have hj' := hget j
    rw [h, hb, Option.map_some, if_neg (Nat.not_lt.mpr hj)] at hj'
    exact (Option.some.inj hj').symm
  · intro h
    refine List.ext_getElem? fun j => ?_
    rw [hget]
    cases hb : params[j]? with
    | none => rfl
    | some b =>
        rw [Option.map_some]
        split
        · rfl
        · rename_i hj
          rw [h j b hb (Nat.le_of_not_lt hj)]

/-- A query for which there is room is still shown. -/
theorem shows_of_room {params : Bytes} (h : read + params.length ≤ storage.room + 1)
    (hread : read ≤ storage.room) : storage.Shows read params := by
  intro j b hb hj
  obtain ⟨hlt, -⟩ := List.getElem?_eq_some_iff.mp hb
  rw [intact, if_pos hread] at hj
  omega

end Storage

/-! ### One turn -/

/-- What `mpc_get_context` and the cast behind it find for a path. -/
inductive ContextKind where
  | missing
  /-- a context of another protocol -/
  | foreign
  | http
  deriving DecidableEq, Repr

/-- What `accept` takes from elsewhere. `options` is `mpc_http_options`: the code and the
buffer it leaves, or `none` when the header makes it throw. -/
structure HttpServer where
  parseOriginForm : Bytes → Except ErrorCode UrlView
  contexts : Bytes → ContextKind
  options : Bytes → Option (ErrorCode × Bytes)

/-- What is handed to a context. -/
structure Dispatch where
  method : HttpMethod
  router : Bytes
  buffer : Bytes
  deriving DecidableEq, Repr

/-- How the loop is left: by an error code, by an exception, or undefined. -/
inductive Ending where
  | closed
  | thrown
  | undefined
  deriving DecidableEq, Repr

/-- How a turn ends: it leaves the loop, or goes on with the stream that is left, having
dispatched at most one request and written at most one response. -/
inductive Turn where
  | ended (ending : Ending)
  | next (dispatched : Option Dispatch) (writes : List Bytes) (stream : Bytes)

/-- `two_crlf` -/
def twoCrlf : Bytes := [13, 10, 13, 10]

/-- `async_read_until` with `k` bytes beyond the delimiter, as far as they are there and the
buffer can hold them: the end of the delimiter, the buffer, and the rest of the stream. -/
def readUntil (k : ℕ) (stream : Bytes) : Option (ℕ × Bytes × Bytes) :=
  match find twoCrlf stream with
  | none => none
  | some pos =>
      if maxSize < pos + 4 then none
      else
        let size := min (pos + 4 + k) maxSize
        some (pos + 4, stream.take size, stream.drop size)

/-- The part of a turn behind the start line. -/
def takeRequest (server : HttpServer) (storage : Storage) (method : HttpMethod) (url : UrlView)
    (buffer : Bytes) (stream : Bytes) : Turn :=
  match httpRecv buffer [stream] with
  | .failed => .ended .closed
  | .thrown => .ended .thrown
  | .undefined => .ended .undefined
  | .received received stream =>
      let read := received.length - buffer.length
      let buffer :=
        if method = .get then received ++ storage.sputn read url.params else received
      match server.contexts url.path with
      | .missing => .next none [makeResponse (httpStatus 400) []] stream.flatten
      | .foreign => .next none [] stream.flatten
      | .http => .next (some ⟨method, url.path, buffer⟩) [] stream.flatten

/-- One turn of the `for (;;)` of `accept`. -/
def turn (server : HttpServer) (storage : Storage) (k : ℕ) (stream : Bytes) : Turn :=
  match readUntil k stream with
  | none => .ended .closed
  | some (endPos, buffer, stream) =>
      let headerLine := (buffer.take endPos).takeWhile fun b => !isCrlf b
      let buffer := buffer.drop (headerLine.length + crlf.length)
      match parseCommandLine server.parseOriginForm headerLine with
      | .error ec => .next none [makeResponse ec []] stream
      | .ok (method, url, _) =>
          if method = .options then
            match server.options buffer with
            | none => .ended .thrown
            | some (ec, buffer) => .next none [makeResponse ec buffer] stream
          else takeRequest server storage method url buffer stream

/-- The part behind the start line puts nothing back. -/
theorem takeRequest_length {server : HttpServer} {storage : Storage} {method : HttpMethod}
    {url : UrlView} {buffer stream : Bytes} {dispatched : Option Dispatch} {writes : List Bytes}
    {rest : Bytes}
    (h : takeRequest server storage method url buffer stream = .next dispatched writes rest) :
    rest.length ≤ stream.length := by
  rw [takeRequest] at h
  cases hrecv : httpRecv buffer [stream] with
  | failed | thrown | undefined =>
      rw [hrecv] at h
      cases h
  | received buffer' stream' =>
      have hle := stream_of_httpRecv hrecv
      rw [List.flatten_singleton] at hle
      rw [hrecv] at h
      cases hcontext : server.contexts url.path with
      | missing | foreign | http =>
          simp only [hcontext] at h
          cases h
          exact hle

/-- Every turn that goes on has taken bytes off the stream, the blank line at least. -/
theorem turn_length {server : HttpServer} {storage : Storage} {k : ℕ} {stream : Bytes}
    {dispatched : Option Dispatch} {writes : List Bytes} {rest : Bytes}
    (h : turn server storage k stream = .next dispatched writes rest) :
    rest.length < stream.length := by
  rw [turn, readUntil] at h
  cases hfind : find twoCrlf stream with
  | none =>
      rw [hfind] at h
      cases h
  | some pos =>
      have hpos : pos + 4 ≤ stream.length := by
        have hle := (find_eq_some hfind).length_le
        rw [List.length_drop] at hle
        have hfour : twoCrlf.length = 4 := rfl
        omega
      rw [hfind] at h
      simp only at h
      by_cases hmax : maxSize < pos + 4
      · rw [if_pos hmax] at h
        cases h
      rw [if_neg hmax] at h
      simp only at h
      have hdrop : (stream.drop (min (pos + 4 + k) maxSize)).length < stream.length := by
        rw [List.length_drop]
        omega
      split at h
      · cases h
        exact hdrop
      · split at h
        · split at h
          · cases h
          · cases h
            exact hdrop
        · exact lt_of_le_of_lt (takeRequest_length h) hdrop

/-! ### The loop -/

/-- What a run of `accept` has dispatched and written, and how it ended. -/
structure Accepted where
  dispatched : List Dispatch
  writes : List Bytes
  ending : Ending

/-- `http::accept` on the bytes of a connection, with `offered i` bytes read beyond the blank
line in turn `i`, into a buffer that makes room as `storage i`. -/
def accept (server : HttpServer) (storage : ℕ → Storage) (offered : ℕ → ℕ) (stream : Bytes) :
    Accepted :=
  match _h : turn server (storage 0) (offered 0) stream with
  | .ended ending => ⟨[], [], ending⟩
  | .next dispatched writes rest =>
      let later := accept server (fun i => storage (i + 1)) (fun i => offered (i + 1)) rest
      ⟨dispatched.toList ++ later.dispatched, writes ++ later.writes, later.ending⟩
termination_by stream.length
decreasing_by exact turn_length _h

/-- A run whose first turn leaves the loop. -/
theorem accept_of_ended {server : HttpServer} {storage : ℕ → Storage} {offered : ℕ → ℕ}
    {stream : Bytes} {ending : Ending}
    (h : turn server (storage 0) (offered 0) stream = .ended ending) :
    accept server storage offered stream = ⟨[], [], ending⟩ := by
  rw [accept]
  split
  · rename_i ending' h'
    rw [h] at h'
    cases h'
    rfl
  · rename_i h'
    rw [h] at h'
    cases h'

/-- A run whose first turn goes on. -/
theorem accept_of_next {server : HttpServer} {storage : ℕ → Storage} {offered : ℕ → ℕ}
    {stream : Bytes} {dispatched : Option Dispatch} {writes : List Bytes} {rest : Bytes}
    (h : turn server (storage 0) (offered 0) stream = .next dispatched writes rest) :
    (accept server storage offered stream).dispatched = dispatched.toList ++
      (accept server (fun i => storage (i + 1)) (fun i => offered (i + 1)) rest).dispatched := by
  rw [accept]
  split
  · rename_i h'
    rw [h] at h'
    cases h'
  · rename_i h'
    rw [h] at h'
    cases h'
    rfl

/-! ### Requests on the wire -/

/-- A request that the server can dispatch, as it is sent: a start line, a header block that
ends with the first blank line, and a body. -/
structure SentRequest (server : HttpServer) where
  line : Bytes
  method : HttpMethod
  url : UrlView
  version : HttpVersion
  block : Bytes
  body : Bytes
  line_wf : ∀ b ∈ line, isCrlf b = false
  parses : parseCommandLine server.parseOriginForm line = .ok (method, url, version)
  method_ne : method ≠ .options
  registered : server.contexts url.path = .http
  blank : ∃ pos, find twoCrlf (line ++ crlf ++ block) = some pos ∧
    pos + 4 = (line ++ crlf ++ block).length
  body_pos : 1 ≤ body.length
  size_le : (line ++ crlf ++ block).length + body.length ≤ maxSize

namespace SentRequest

variable {server : HttpServer}

/-- Everything in front of the body. -/
def head (r : SentRequest server) : Bytes := r.line ++ crlf ++ r.block

/-- The bytes of the request. -/
def bytes (r : SentRequest server) : Bytes := r.head ++ r.body

/-- What a context is to be handed for the request. -/
def expected (r : SentRequest server) : Dispatch where
  method := r.method
  router := r.url.path
  buffer := if r.method = .get then r.block ++ r.body ++ r.url.params else r.block ++ r.body

/-- The first mention of `Content-Length` in the header block is the field with the length of
the body. -/
def Ordinary (r : SentRequest server) : Prop :=
  ∃ pre post, r.block = fieldBlock pre r.body.length post ∧
    find contentLengthKey r.block = some pre.length

end SentRequest

/-- The requests back to back. -/
def wireOf {server : HttpServer} (rs : List (SentRequest server)) : Bytes :=
  rs.flatMap SentRequest.bytes

/-- What is in the buffer behind the blank line, when the transport offers `k` bytes and the
stream goes on with the body and `following`. -/
def overRead {server : HttpServer} (k : ℕ) (r : SentRequest server) (following : Bytes) :
    Bytes :=
  (r.body ++ following).take (min k (maxSize - r.head.length))

/-- The number `recv` finds in the buffer is not zero and does not wrap, and the larger of it
and the size of the buffer is the size of the header block and the body. -/
def LengthFits {server : HttpServer} (k : ℕ) (r : SentRequest server) (following : Bytes) :
    Prop :=
  ∃ v, contentLength (r.block ++ overRead k r following) = some v ∧ v ≠ 0 ∧
    ((r.block ++ overRead k r following).length : ℤ) - 2 ^ 63 ≤ v ∧
    max ((r.block ++ overRead k r following).length : ℤ) v = r.block.length + r.body.length

/-- The query of a `GET` is still there when it is copied, behind the rest of the body. -/
def QueryShown {server : HttpServer} (storage : Storage) (k : ℕ) (r : SentRequest server)
    (following : Bytes) : Prop :=
  r.method = .get →
    storage.Shows (r.body.length - (overRead k r following).length) r.url.params

/-- Every request fits what was read with its header, and its query is copied as it was sent. -/
def AllFit {server : HttpServer} : (ℕ → Storage) → (ℕ → ℕ) → List (SentRequest server) → Prop
  | _, _, [] => True
  | storage, offered, r :: rs =>
      (LengthFits (offered 0) r (wireOf rs) ∧
        QueryShown (storage 0) (offered 0) r (wireOf rs)) ∧
      AllFit (fun i => storage (i + 1)) (fun i => offered (i + 1)) rs

/-- Every header is read together with the body that belongs to it, and with nothing else, and
the query of every `GET` is still there behind the characters there is room for. -/
def ReadTogether {server : HttpServer} :
    (ℕ → Storage) → (ℕ → ℕ) → List (SentRequest server) → Prop
  | _, _, [] => True
  | storage, offered, r :: rs =>
      ((overRead (offered 0) r (wireOf rs)).length = r.body.length ∧
        (r.method = .get → (storage 0).Shows 0 r.url.params)) ∧
      ReadTogether (fun i => storage (i + 1)) (fun i => offered (i + 1)) rs

/-! ### The first request of a stream -/

section StartLine

variable {server : HttpServer} {storage : Storage} {line block : Bytes}

/-- The head of a request that ends with its first blank line is read with the bytes the transport
offers. -/
private theorem readUntil_head {head : Bytes} {pos : ℕ} (hfind : find twoCrlf head = some pos)
    (hpos : pos + 4 = head.length) (hsize : head.length ≤ maxSize) (k : ℕ) (s : Bytes) :
    readUntil k (head ++ s) =
      some (head.length, head ++ s.take (min k (maxSize - head.length)),
        s.drop (min k (maxSize - head.length))) := by
  have hcut : min (head.length + k) maxSize = head.length + min k (maxSize - head.length) := by
    omega
  rw [readUntil, find_append hfind]
  simp only [hpos]
  rw [if_neg (by omega), hcut, List.take_length_add_append, List.drop_length_add_append]

/-- The start line is everything up to the first line end. -/
private theorem takeWhile_head (hline : ∀ b ∈ line, isCrlf b = false) (s : Bytes) :
    ((line ++ crlf ++ block ++ s).take (line ++ crlf ++ block).length).takeWhile
      (fun b => !isCrlf b) = line := by
  have hkeep : ∀ b ∈ line, (!isCrlf b) = true := by
    intro b hb
    rw [hline b hb]
    rfl
  rw [List.take_left, List.append_assoc, List.takeWhile_append_of_pos hkeep]
  simp [crlf, isCrlf]

/-- Behind the start line the buffer holds the header block and what was read beyond it. -/
private theorem drop_line (s : Bytes) :
    (line ++ crlf ++ block ++ s).drop (line.length + crlf.length) = block ++ s := by
  have hlen : (line ++ crlf).length = line.length + crlf.length := List.length_append
  rw [List.append_assoc, ← hlen, List.drop_left]

/-- **The turn for the first request of a stream**: the start line is taken off, and the part behind it
works with the header block and as much as the transport has offered with it. -/
theorem turn_startLine {method : HttpMethod} {url : UrlView} {version : HttpVersion} {pos : ℕ}
    (hline : ∀ b ∈ line, isCrlf b = false)
    (hparses : parseCommandLine server.parseOriginForm line = .ok (method, url, version))
    (hmethod : method ≠ .options) (hfind : find twoCrlf (line ++ crlf ++ block) = some pos)
    (hpos : pos + 4 = (line ++ crlf ++ block).length)
    (hsize : (line ++ crlf ++ block).length ≤ maxSize) (k : ℕ) (s : Bytes) :
    turn server storage k (line ++ crlf ++ block ++ s) =
      takeRequest server storage method url
        (block ++ s.take (min k (maxSize - (line ++ crlf ++ block).length)))
        (s.drop (min k (maxSize - (line ++ crlf ++ block).length))) := by
  rw [turn, readUntil_head hfind hpos hsize]
  simp only [takeWhile_head hline, hparses, if_neg hmethod, drop_line]

end StartLine

section FirstRequest

variable {server : HttpServer} (storage : Storage) (r : SentRequest server) (k : ℕ)
  (following : Bytes)

/-- The size of the start line and the header block. -/
private theorem head_length : r.head.length = r.line.length + 2 + r.block.length := by
  simp only [SentRequest.head, List.length_append]
  rfl

/-- The buffer `recv` is entered with can hold what is in it. -/
private theorem buffer_length_le : (r.block ++ overRead k r following).length ≤ maxSize := by
  have hmax : r.head.length + r.body.length ≤ maxSize := r.size_le
  have hhead := head_length r
  rw [List.length_append, overRead, List.length_take]
  omega

/-- The turn for the first of the requests. -/
private theorem turn_head :
    turn server storage k (r.head ++ (r.body ++ following)) =
      takeRequest server storage r.method r.url (r.block ++ overRead k r following)
        ((r.body ++ following).drop (min k (maxSize - r.head.length))) := by
  obtain ⟨pos, hfind, hpos⟩ := r.blank
  have hmax : r.head.length + r.body.length ≤ maxSize := r.size_le
  exact turn_startLine r.line_wf r.parses r.method_ne hfind hpos
    (show r.head.length ≤ maxSize by omega) k _

/-- What is dispatched when `recv` has received `received`. -/
private def dispatchOf (received : Bytes) : Dispatch where
  method := r.method
  router := r.url.path
  buffer := if r.method = .get then
    received ++ storage.sputn (received.length - (r.block ++ overRead k r following).length)
      r.url.params else received

/-- What is dispatched is the request as it was sent exactly when the buffer is, and the query is
still shown. -/
private theorem dispatchOf_eq_expected_iff (received : Bytes) :
    dispatchOf storage r k following received = r.expected ↔
      received = r.block ++ r.body ∧ QueryShown storage k r following := by
  have hread : (r.block ++ r.body).length - (r.block ++ overRead k r following).length =
      r.body.length - (overRead k r following).length := by
    rw [List.length_append, List.length_append]
    omega
  rw [dispatchOf, SentRequest.expected, Dispatch.mk.injEq, QueryShown]
  simp only [true_and]
  by_cases hget : r.method = .get
  · rw [if_pos hget, if_pos hget]
    constructor
    · intro h
      obtain ⟨hbuffer, hparams⟩ := List.append_inj' h (Storage.length_sputn _)
      rw [hbuffer, hread] at hparams
      exact ⟨hbuffer, fun _ => Storage.sputn_eq_iff.mp hparams⟩
    · rintro ⟨rfl, hshown⟩
      rw [hread, Storage.sputn_eq_iff.mpr (hshown hget)]
  · rw [if_neg hget, if_neg hget]
    exact ⟨fun h => ⟨h, fun h' => absurd h' hget⟩, And.left⟩

/-- **A request that fits** is dispatched as it was sent, and the stream is left at the next
one. -/
private theorem turn_of_fits (hfits : LengthFits k r following)
    (hshown : QueryShown storage k r following) :
    turn server storage k (r.head ++ (r.body ++ following)) =
      .next (some r.expected) [] following := by
  obtain ⟨v, hfound, hne, hwrap, hmax⟩ := hfits
  have hbound : r.head.length + r.body.length ≤ maxSize := r.size_le
  have hhead := head_length r
  obtain ⟨stream, hrecv, hstream⟩ := httpRecv_take hfound hne hwrap hmax
    (by rw [List.length_append]; omega) (by omega)
  rw [List.take_left] at hrecv
  rw [List.drop_left] at hstream
  have hdispatched := (dispatchOf_eq_expected_iff storage r k following _).mpr ⟨rfl, hshown⟩
  rw [dispatchOf, overRead] at hdispatched
  rw [turn_head, overRead, takeRequest, hrecv]
  simp only [r.registered, hstream, hdispatched]

/-- **A request that does not fit** is not dispatched, or with another buffer. -/
private theorem turn_of_not_fits
    (hfits : ¬ (LengthFits k r following ∧ QueryShown storage k r following)) :
    (∃ ending, turn server storage k (r.head ++ (r.body ++ following)) = .ended ending) ∨
      ∃ d rest, turn server storage k (r.head ++ (r.body ++ following)) =
        .next (some d) [] rest ∧ d ≠ r.expected := by
  rw [turn_head, takeRequest]
  cases hrecv : httpRecv (r.block ++ overRead k r following)
      [(r.body ++ following).drop (min k (maxSize - r.head.length))] with
  | failed => exact .inl ⟨_, rfl⟩
  | thrown => exact .inl ⟨_, rfl⟩
  | undefined => exact .inl ⟨_, rfl⟩
  | received received stream =>
      obtain ⟨v, hfound, hne, hwrap, hlen, -⟩ :=
        length_of_httpRecv (buffer_length_le r k following) hrecv
      simp only [r.registered]
      refine .inr ⟨dispatchOf storage r k following received, _, rfl, fun hd => hfits ?_⟩
      obtain ⟨hreceived, hshown⟩ := (dispatchOf_eq_expected_iff storage r k following _).mp hd
      refine ⟨⟨v, hfound, hne, hwrap, ?_⟩, hshown⟩
      rw [hreceived, List.length_append] at hlen
      rw [← hlen]
      push_cast
      rfl

/-- The length of an ordinary request fits exactly when its body was read with the header, and
nothing else. -/
private theorem lengthFits_iff_of_ordinary (hr : r.Ordinary) :
    LengthFits k r following ↔ (overRead k r following).length = r.body.length := by
  obtain ⟨pre, post, hblock, hfirst⟩ := hr
  have hmax : maxSize = 2 ^ 63 - 1 := rfl
  have hbound : r.head.length + r.body.length ≤ maxSize := r.size_le
  have hhead := head_length r
  have hbuffer := buffer_length_le r k following
  have hfound : contentLength (r.block ++ overRead k r following) =
      some (r.body.length : ℤ) := by
    rw [hblock] at hfirst
    have hfield := contentLength_field hfirst (by rw [← hblock]; omega) (by omega)
      (overRead k r following)
    rwa [← hblock] at hfield
  have hpos : 0 < r.block.length := by
    rw [hblock, fieldBlock, List.length_append, List.length_append, List.length_cons]
    omega
  have hbody := r.body_pos
  rw [List.length_append] at hbuffer
  constructor
  · rintro ⟨v, hv, -, -, hlen⟩
    rw [hfound] at hv
    obtain rfl := Option.some.inj hv
    rw [List.length_append] at hlen
    push_cast at hlen
    omega
  · intro hlen
    refine ⟨_, hfound, by omega, ?_, ?_⟩
    · rw [List.length_append]
      push_cast
      omega
    · rw [List.length_append, hlen]
      push_cast
      omega

end FirstRequest

/-! ### The requests dispatched -/

section Dispatched

variable {server : HttpServer}

/-- The stream of a list of requests starts with the first of them. -/
private theorem wireOf_cons (r : SentRequest server) (rs : List (SentRequest server)) :
    wireOf (r :: rs) = r.head ++ (r.body ++ wireOf rs) := by
  rw [wireOf, List.flatMap_cons, SentRequest.bytes, List.append_assoc]
  rfl

/-- After a request that fits, the loop is at the next one. -/
private theorem dispatched_of_fits {storage : ℕ → Storage} {offered : ℕ → ℕ}
    {r : SentRequest server} {rs : List (SentRequest server)}
    (hfits : LengthFits (offered 0) r (wireOf rs))
    (hshown : QueryShown (storage 0) (offered 0) r (wireOf rs)) :
    (accept server storage offered (wireOf (r :: rs))).dispatched = r.expected ::
      (accept server (fun i => storage (i + 1)) (fun i => offered (i + 1))
        (wireOf rs)).dispatched := by
  have hturn := turn_of_fits (storage 0) r (offered 0) (wireOf rs) hfits hshown
  rw [← wireOf_cons] at hturn
  rw [accept_of_next hturn]
  rfl

/-- A request that does not fit is not what is dispatched first. -/
private theorem dispatched_of_not_fits {storage : ℕ → Storage} {offered : ℕ → ℕ}
    {r : SentRequest server} {rs : List (SentRequest server)}
    (hfits : ¬ (LengthFits (offered 0) r (wireOf rs) ∧
      QueryShown (storage 0) (offered 0) r (wireOf rs)))
    (later : List Dispatch) :
    (accept server storage offered (wireOf (r :: rs))).dispatched ≠ r.expected :: later := by
  have hturn := turn_of_not_fits (storage 0) r (offered 0) (wireOf rs) hfits
  rw [← wireOf_cons] at hturn
  rcases hturn with ⟨ending, hended⟩ | ⟨d, rest, hnext, hd⟩
  · rw [accept_of_ended hended]
    exact (List.cons_ne_nil _ _).symm
  · rw [accept_of_next hnext]
    intro h
    exact hd (List.cons.inj h).1

/-- The requests dispatched are the requests sent exactly when each of them fits. By induction
on the requests: the first that does not fit is dispatched as another one, or not at all. -/
private theorem dispatched_iff_allFit (rs : List (SentRequest server)) (storage : ℕ → Storage)
    (offered : ℕ → ℕ) :
    (accept server storage offered (wireOf rs)).dispatched = rs.map SentRequest.expected ↔
      AllFit storage offered rs := by
  induction rs generalizing storage offered with
  | nil =>
      have hended : turn server (storage 0) (offered 0)
          (wireOf ([] : List (SentRequest server))) = .ended .closed := rfl
      rw [accept_of_ended hended]
      exact ⟨fun _ => trivial, fun _ => rfl⟩
  | cons r rs ih =>
      rw [List.map_cons, AllFit]
      by_cases hfits : LengthFits (offered 0) r (wireOf rs) ∧
        QueryShown (storage 0) (offered 0) r (wireOf rs)
      · rw [dispatched_of_fits hfits.1 hfits.2, List.cons_inj_right, ih]
        exact ⟨fun h => ⟨hfits, h⟩, And.right⟩
      · exact ⟨fun h => absurd h (dispatched_of_not_fits hfits _), fun h => absurd h.1 hfits⟩

/-- Ordinary requests fit exactly when each was read together with its body. There is nothing to
read then when the query is copied. -/
private theorem allFit_iff_readTogether {rs : List (SentRequest server)}
    (hrs : ∀ r ∈ rs, r.Ordinary) (storage : ℕ → Storage) (offered : ℕ → ℕ) :
    AllFit storage offered rs ↔ ReadTogether storage offered rs := by
  induction rs generalizing storage offered with
  | nil => exact Iff.rfl
  | cons r rs ih =>
      have hr := lengthFits_iff_of_ordinary r (offered 0) (wireOf rs)
        (hrs r (List.mem_cons_self ..))
      rw [AllFit, ReadTogether, hr, ih fun r' hr' => hrs r' (List.mem_cons_of_mem _ hr'),
        QueryShown]
      refine and_congr_left fun _ => and_congr_right fun htogether => ?_
      rw [htogether, Nat.sub_self]

/-- **The requests dispatched.** For every list of requests written back to back and every
amount of over-read in each turn: the requests dispatched are exactly the requests sent, in
order, if and only if each of them fits what was read with its header and its query is still there
when it is copied. For requests whose first mention of `Content-Length` is the field with the
length of the body, that is to say that every header was read together with its own body and
nothing else, and that the view of the query of every `GET` still shows what there was no room
for. -/
theorem dispatched_iff (server : HttpServer) (rs : List (SentRequest server))
    (storage : ℕ → Storage) (offered : ℕ → ℕ) :
    ((accept server storage offered (wireOf rs)).dispatched = rs.map SentRequest.expected ↔
      AllFit storage offered rs) ∧
    ((∀ r ∈ rs, r.Ordinary) →
      ((accept server storage offered (wireOf rs)).dispatched =
          rs.map SentRequest.expected ↔
        ReadTogether storage offered rs)) := by
  refine ⟨dispatched_iff_allFit rs storage offered, fun hrs => ?_⟩
  rw [dispatched_iff_allFit, allFit_iff_readTogether hrs]

end Dispatched

/-! ### Two requests at once -/

/-- A server with one context, at the path `/a`; a target is a path and what is behind a `?`. -/
def oneContext : HttpServer where
  parseOriginForm target :=
    .ok ⟨target.takeWhile fun b => b != 63, (target.dropWhile fun b => b != 63).tail⟩
  contexts path := if path = [47, 97] then .http else .missing
  options _ := none

/-- `POST /a HTTP/1.1`, with a body of one byte. -/
def postOne (b : UInt8) : SentRequest oneContext where
  line := [80, 79, 83, 84, 32, 47, 97, 32, 72, 84, 84, 80, 47, 49, 46, 49]
  method := .post
  url := ⟨[47, 97], []⟩
  version := .http11
  block := fieldBlock [] 1 [13, 10]
  body := [b]
  line_wf := by simp [isCrlf]
  parses := rfl
  method_ne := HttpMethod.noConfusion
  registered := rfl
  blank := ⟨35, by decide, by decide⟩
  body_pos := le_rfl
  size_le := by
    rw [maxSize, List.length_singleton]
    decide

/-- The request is ordinary. -/
private theorem ordinary_postOne (b : UInt8) : (postOne b).Ordinary :=
  ⟨[], [13, 10], rfl, by
    change find contentLengthKey (fieldBlock [] 1 [13, 10]) = some 0
    decide⟩

/-- `GET /a?k=1 HTTP/1.1`, with a body of one byte. -/
def getOne (b : UInt8) : SentRequest oneContext where
  line := [71, 69, 84, 32, 47, 97, 63, 107, 61, 49, 32, 72, 84, 84, 80, 47, 49, 46, 49]
  method := .get
  url := ⟨[47, 97], [107, 61, 49]⟩
  version := .http11
  block := fieldBlock [] 1 [13, 10]
  body := [b]
  line_wf := by simp [isCrlf]
  parses := rfl
  method_ne := HttpMethod.noConfusion
  registered := rfl
  blank := ⟨38, by decide, by decide⟩
  body_pos := le_rfl
  size_le := by
    rw [maxSize, List.length_singleton]
    decide

/-- This one is ordinary too. -/
private theorem ordinary_getOne (b : UInt8) : (getOne b).Ordinary :=
  ⟨[], [13, 10], rfl, by
    change find contentLengthKey (fieldBlock [] 1 [13, 10]) = some 0
    decide⟩

/-- A buffer with room for two characters, which shows zeros when they have been put there. -/
def roomForTwo : ℕ → Storage := fun _ => { room := 2, seen := fun _ => 0 }

/-- Two requests arrive in order when each body comes with its header, and nothing else, and there
is room for the query of the second. -/
theorem dispatched_getOne :
    (accept oneContext roomForTwo (fun _ => 1) (wireOf [postOne 120, getOne 121])).dispatched =
      [(postOne 120).expected, (getOne 121).expected] := by
  refine ((dispatched_iff oneContext [postOne 120, getOne 121] roomForTwo fun _ => 1).2 ?_).mpr ?_
  · intro r hr
    rcases List.mem_pair.mp hr with rfl | rfl
    · exact ordinary_postOne 120
    · exact ordinary_getOne 121
  · refine ⟨⟨by decide, HttpMethod.noConfusion⟩, ⟨by decide, fun _ => ?_⟩, trivial⟩
    exact Storage.shows_of_room (by decide) (by decide)

/-- **A lost request.** Two requests with a body of one byte each arrive together. The first
context is handed the second request as part of the body, and the second request is gone. -/
theorem not_dispatched_together :
    (accept oneContext roomForTwo (fun _ => 1000)
        (wireOf [postOne 120, postOne 121])).dispatched ≠
      [(postOne 120).expected, (postOne 121).expected] := by
  refine dispatched_of_not_fits (fun h => ?_) _
  have htogether := (lengthFits_iff_of_ordinary _ _ _ (ordinary_postOne 120)).mp h.1
  exact absurd htogether (by decide)

end Aquarius
