import Aquarius.HttpProtocol
import Aquarius.Library.Transition

/-!
# Committing a Message Again

A message object is used again: a handler commits the same response for every request it serves, and
in between its method, its fields and its body are changed. `commit` (`virgo/basic_http_protocol.hpp`)
sets `Content-Length` when it writes a body, and the field stays in the header from then on. A commit
that writes no body does not take it out.

The histories of an object are runs of a transition system. Its state keeps what the commits so far
have written, each with the order in which the map was enumerated for it.

## Main results

* `truthful_commit_iff`: exactly when one commit tells the truth about its length.
* `allTruthful_iff`: **every history**, from any object, tells the truth as long as no commit without
  a body finds a length in the header.
* `not_allTruthful_reused`: a `POST`, and then a `GET` of the same object.
-/

open Decoding Transition

namespace Aquarius

/-- An order in which a map is enumerated, after every change another one. -/
structure FieldOrder where
  enumerate : HttpFields → HttpFields
  perm : ∀ fields, (enumerate fields).Perm fields

/-- What can be done with a message between two commits, and a commit on a new buffer. -/
inductive MessageOp (B : Type) where
  /-- `method(v)` -/
  | method (v : HttpMethod)
  /-- `header().set_field(key, v)` -/
  | setField (key v : Bytes) (hkey : key ≠ contentLengthKey)
  /-- `body() = v` -/
  | body (v : B)
  | commit (order : FieldOrder)

/-- What a commit has written: the fields in the order of the header block, and all the bytes. -/
structure WrittenMessage where
  fields : HttpFields
  bytes : Bytes
  deriving DecidableEq, Repr

/-- A message object and what its commits have written. -/
structure MessageHistory (B : Type) where
  message : HttpMessage B
  written : List WrittenMessage := []

namespace HttpMessage

variable {B : Type}

/-- What a commit writes; nothing when the body throws, as the header comes behind it. -/
def written (ser : Serialization B) (order : FieldOrder) (m : HttpMessage B) :
    Option WrittenMessage :=
  match m.commit ser order.enumerate with
  | (m', bytes, .success) => some ⟨order.enumerate m'.header.fields, bytes⟩
  | _ => none

/-- The number of bytes that a commit writes behind the blank line. -/
def bodyBytes (ser : Serialization B) (m : HttpMessage B) : ℕ :=
  if m.method = .get then 0 else (ser.toJson m.body).1.length

/-- When the message would be written without a body, its header holds no length but zero. -/
def LengthFree (ser : Serialization B) (m : HttpMessage B) : Prop :=
  (ser.toJson m.body).2 = none → m.bodyBytes ser = 0 →
    ∀ v, (contentLengthKey, v) ∈ m.header.fields → v = decimal 0

end HttpMessage

/-- A step in the life of a message object. -/
def messageStep {B : Type} (ser : Serialization B) (s : MessageHistory B) :
    MessageOp B → Option (MessageHistory B)
  | .method v => some { s with message := { s.message with method := v } }
  | .setField key v _ =>
      some { s with message := { s.message with
        header := { s.message.header with fields := s.message.header.fields.setField key v } } }
  | .body v => some { s with message := { s.message with body := v } }
  | .commit order =>
      some { message := (s.message.commit ser order.enumerate).1
             written := s.written ++ (s.message.written ser order).toList }

/-- **The length is truthful**: where the header block has the field, it says how many bytes follow the
blank line, and it has the field when there are any. -/
def WrittenMessage.Truthful (w : WrittenMessage) : Prop :=
  ∃ t, w.bytes = HttpHeader.serialize w.fields ++ t ∧
    (∀ v, (contentLengthKey, v) ∈ w.fields → v = decimal t.length) ∧
    (t.length ≠ 0 → ∃ v, (contentLengthKey, v) ∈ w.fields)

/-- Everything that was committed tells the truth. -/
def MessageHistory.AllTruthful {B : Type} (s : MessageHistory B) : Prop :=
  ∀ w ∈ s.written, w.Truthful

/-- The condition on a step: a commit without a body finds no length in the header. -/
def CommitsLengthFree {B : Type} (ser : Serialization B) (s : MessageHistory B) :
    MessageOp B → Prop
  | .commit _ => s.message.LengthFree ser
  | _ => True

/-! ### One commit -/

section Commit

variable {B : Type} {ser : Serialization B} {order : FieldOrder} {m : HttpMessage B}

/-- A body that throws leaves nothing written. -/
theorem written_of_throws (h : (ser.toJson m.body).2 ≠ none) : m.written ser order = none := by
  obtain ⟨fault, hfault⟩ := Option.ne_none_iff_exists'.mp h
  have hjson : ser.toJson m.body = ((ser.toJson m.body).1, some fault) := Prod.ext rfl hfault
  rw [HttpMessage.written, HttpMessage.commit, hjson]

/-- What a commit writes when the body does not throw: the header block, with the length in it if there
is one, and as many bytes. -/
theorem written_eq (order : FieldOrder) (h : (ser.toJson m.body).2 = none) :
    ∃ t : Bytes, t.length = m.bodyBytes ser ∧ m.written ser order =
      some ⟨order.enumerate (withContentLength m.header.fields t.length),
        HttpHeader.serialize (order.enumerate (withContentLength m.header.fields t.length)) ++ t⟩ := by
  have hjson : ser.toJson m.body = ((ser.toJson m.body).1, none) := Prod.ext rfl h
  by_cases hget : m.method = .get
  · refine ⟨[], by rw [HttpMessage.bodyBytes, if_pos hget]; rfl, ?_⟩
    rw [HttpMessage.written, HttpMessage.commit, hjson]
    simp only [if_pos hget, List.append_nil]
    rfl
  · refine ⟨(ser.toJson m.body).1, by rw [HttpMessage.bodyBytes, if_neg hget], ?_⟩
    rw [HttpMessage.written, HttpMessage.commit, hjson]
    simp only [if_neg hget]

/-- A header block in front of a body tells the truth when it was given the length of the body, and in
front of none when it holds no other length. -/
theorem truthful_block_iff (fields : HttpFields) (t : Bytes) :
    WrittenMessage.Truthful
        ⟨order.enumerate (withContentLength fields t.length),
          HttpHeader.serialize (order.enumerate (withContentLength fields t.length)) ++ t⟩ ↔
      (t.length = 0 → ∀ v, (contentLengthKey, v) ∈ fields → v = decimal 0) := by
  have hmem : ∀ v, (contentLengthKey, v) ∈ order.enumerate (withContentLength fields t.length) ↔
      (contentLengthKey, v) ∈ withContentLength fields t.length :=
    fun v => (order.perm _).mem_iff
  have htruth : WrittenMessage.Truthful
        ⟨order.enumerate (withContentLength fields t.length),
          HttpHeader.serialize (order.enumerate (withContentLength fields t.length)) ++ t⟩ ↔
      (∀ v, (contentLengthKey, v) ∈ withContentLength fields t.length → v = decimal t.length) ∧
        (t.length ≠ 0 → ∃ v, (contentLengthKey, v) ∈ withContentLength fields t.length) := by
    simp only [WrittenMessage.Truthful, List.append_cancel_left_eq, hmem]
    constructor
    · rintro ⟨u, rfl, h⟩
      exact h
    · exact fun h => ⟨t, rfl, h⟩
  rw [htruth, withContentLength]
  by_cases hzero : t.length = 0
  · simp [hzero]
  · simp [hzero, mem_setField_self]

/-- **One commit** tells the truth about its length exactly when it writes a body, or the header holds
no length that is not zero. -/
theorem truthful_commit_iff :
    (∀ w ∈ (m.written ser order).toList, w.Truthful) ↔ m.LengthFree ser := by
  by_cases hjson : (ser.toJson m.body).2 = none
  · obtain ⟨t, hlength, hwritten⟩ := written_eq order hjson
    rw [hwritten, HttpMessage.LengthFree, ← hlength, Option.toList_some, List.forall_mem_singleton,
      truthful_block_iff]
    exact ⟨fun h _ => h, fun h => h hjson⟩
  · rw [written_of_throws hjson]
    exact ⟨fun _ h => absurd h hjson, fun _ _ hw => nomatch hw⟩

end Commit

/-! ### Histories -/

section History

variable {B : Type} {ser : Serialization B}

/-- A step keeps what was written truthful exactly when a commit without a body finds no length in the
header. -/
theorem allTruthful_step_iff {s s' : MessageHistory B} {op : MessageOp B}
    (hstep : messageStep ser s op = some s') :
    s'.AllTruthful ↔ s.AllTruthful ∧ CommitsLengthFree ser s op := by
  cases op with
  | method v | setField key v hkey | body v =>
      obtain rfl := Option.some.inj hstep
      exact (and_iff_left trivial).symm
  | commit order =>
      obtain rfl := Option.some.inj hstep
      simp only [MessageHistory.AllTruthful, CommitsLengthFree, List.forall_mem_append,
        truthful_commit_iff]

/-- **Every history of a message object.** Whatever the object is at the start, and in whatever order
its method, its fields and its body are changed and it is committed: every header block written is
truthful about the length if and only if no commit without a body found a length in the header that is
not zero. -/
theorem allTruthful_iff (ser : Serialization B) (m : HttpMessage B) {ops : List (MessageOp B)}
    {s : MessageHistory B} (hrun : Run (messageStep ser) (fun _ _ => True) { message := m } ops s) :
    s.AllTruthful ↔ Run (messageStep ser) (CommitsLengthFree ser) { message := m } ops s := by
  have hstart : MessageHistory.AllTruthful { message := m } := fun _ hw => nomatch hw
  have hiff : s.AllTruthful ↔ MessageHistory.AllTruthful { message := m } ∧
      Run (messageStep ser) (CommitsLengthFree ser) { message := m } ops s :=
    hrun.holds_iff (I := fun _ => True) (fun _ _ _ _ _ _ => trivial)
      (fun _ _ _ _ _ hstep => allTruthful_step_iff hstep) trivial
  rw [hiff]
  exact and_iff_right hstart

end History

/-! ### A message that is used again -/

/-- The fields in the order they were set. -/
def insertionOrder : FieldOrder := ⟨id, List.Perm.refl⟩

/-- The number is changed between two commits, and so is the method. -/
def changedTwice : List (MessageOp (Body [([105, 100], .uint32)])) :=
  [.commit insertionOrder, .body (10#32, ()), .method .put, .commit insertionOrder]

/-- What two commits of one number and another leave. -/
def afterChangedTwice : MessageHistory (Body [([105, 100], .uint32)]) where
  message :=
    { header := { fields := [([88], [49]), (contentLengthKey, decimal 9)] }
      body := (10#32, ())
      method := .put }
  written :=
    [⟨[([88], [49]), (contentLengthKey, decimal 8)],
      HttpHeader.serialize [([88], [49]), (contentLengthKey, decimal 8)] ++
        NumberValue.text (.object [105, 100] 5)⟩,
     ⟨[([88], [49]), (contentLengthKey, decimal 9)],
      HttpHeader.serialize [([88], [49]), (contentLengthKey, decimal 9)] ++
        NumberValue.text (.object [105, 100] 10)⟩]

/-- The theorem at two commits with a body: the second one overwrites the length. -/
theorem allTruthful_changedTwice : afterChangedTwice.AllTruthful := by
  have hrun : Run (messageStep idSerialization) (fun _ _ => True) { message := idMessage 5 }
      changedTwice afterChangedTwice := Run.of_exec rfl
  have hbody : ∀ m : HttpMessage (Body [([105, 100], .uint32)]),
      m.bodyBytes idSerialization ≠ 0 → m.LengthFree idSerialization :=
    fun _ hne _ hzero => absurd hzero hne
  refine (allTruthful_iff idSerialization (idMessage 5) hrun).mpr ?_
  exact .cons (hbody _ (by decide)) rfl (.cons trivial rfl (.cons trivial rfl
    (.cons (hbody _ (by decide)) rfl (.nil _))))

/-- A `POST` with a body, and a `GET` of the same object. -/
def reused : List (MessageOp (Body [([105, 100], .uint32)])) :=
  [.commit insertionOrder, .method .get, .commit insertionOrder]

/-- What they leave: both header blocks have the length of the first body. -/
def afterReused : MessageHistory (Body [([105, 100], .uint32)]) where
  message :=
    { header := { fields := [([88], [49]), (contentLengthKey, decimal 8)] }
      body := (5#32, ())
      method := .get }
  written :=
    [⟨[([88], [49]), (contentLengthKey, decimal 8)],
      HttpHeader.serialize [([88], [49]), (contentLengthKey, decimal 8)] ++
        NumberValue.text (.object [105, 100] 5)⟩,
     ⟨[([88], [49]), (contentLengthKey, decimal 8)],
      HttpHeader.serialize [([88], [49]), (contentLengthKey, decimal 8)]⟩]

/-- **The length is stale.** The second header block says that 8 bytes follow, and none does. -/
theorem not_allTruthful_reused :
    Run (messageStep idSerialization) (fun _ _ => True) { message := idMessage 5 } reused
        afterReused ∧ ¬ afterReused.AllTruthful := by
  refine ⟨Run.of_exec rfl, ?_⟩
  intro hall
  obtain ⟨t, hbytes, hvalue, -⟩ := hall _ (List.mem_cons_of_mem _ List.mem_cons_self)
  have hnil : t = [] := List.append_right_eq_self.mp hbytes.symm
  have hsame := hvalue (decimal 8) (by decide)
  rw [hnil] at hsame
  exact absurd hsame (by decide)

end Aquarius
