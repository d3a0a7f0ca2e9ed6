import Aquarius.Library.Members
import Aquarius.TcpProtocol

/-!
# The Code of a Handler

`handle()` of a registered handler (`ip/handler.hpp`) is user code. It is given here by its segments
between suspension points. A segment reads and assigns the members of the handler's response one by
one, reads the handler's request, to which it may also assign, and ends: at the next suspension
point, by returning an error code, or by an exception. What `handle()` waits for at a suspension
point is the input of the next segment, and so is what it takes from anywhere else.

The response of a handler is never cleared. `handle_request` (`ip/tcp.hpp`) assigns its result and its
`way` before it commits it, and `commit` writes all of it. `HandleCode.Definite` says of the code that
it reads of its response only what it has assigned or what is known from the start, and that it is
done with all the rest when it returns.

## Main results

* `TcpResponse.ext_get`: a response is the values of its members.
* `HandleCode.Definite.start_run_eq`, `HandleCode.Definite.resume_run_eq`: from responses that agree
  in what is known, a segment ends the same way and leaves the same request, with responses that
  agree in what is read of them then.
-/

open Assignment

namespace Aquarius

/-! ### The members of a response -/

/-- A field of a body. -/
def Body.get : (fields : FieldList) → Body fields → (i : Fin fields.length) → (fields.get i).2.Val
  | _ :: _, body, ⟨0, _⟩ => body.1
  | _ :: fields, body, ⟨i + 1, h⟩ => Body.get fields body.2 ⟨i, Nat.lt_of_succ_lt_succ h⟩

/-- Assigning a field of a body. -/
def Body.set : (fields : FieldList) → Body fields → (i : Fin fields.length) →
    (fields.get i).2.Val → Body fields
  | _ :: _, body, ⟨0, _⟩, v => (v, body.2)
  | _ :: fields, body, ⟨i + 1, h⟩, v =>
      (body.1, Body.set fields body.2 ⟨i, Nat.lt_of_succ_lt_succ h⟩ v)

/-- A field holds what it was assigned. -/
theorem Body.get_set_self (fields : FieldList) (body : Body fields) (i : Fin fields.length)
    (v : (fields.get i).2.Val) : Body.get fields (Body.set fields body i v) i = v := by
  induction fields with
  | nil => exact i.elim0
  | cons f fields ih =>
      obtain ⟨_ | i, hi⟩ := i
      · rfl
      · exact ih body.2 ⟨i, Nat.lt_of_succ_lt_succ hi⟩ v

/-- The other fields stay. -/
theorem Body.get_set_ne (fields : FieldList) (body : Body fields) {i j : Fin fields.length}
    (v : (fields.get i).2.Val) (h : j ≠ i) :
    Body.get fields (Body.set fields body i v) j = Body.get fields body j := by
  induction fields with
  | nil => exact i.elim0
  | cons f fields ih =>
      obtain ⟨_ | i, hi⟩ := i <;> obtain ⟨_ | j, hj⟩ := j
      · exact absurd rfl h
      · rfl
      · rfl
      · exact ih body.2 v fun heq => h (Fin.ext (congrArg (· + 1) (Fin.val_eq_of_eq heq)))

/-- A body is the values of its fields. -/
theorem Body.ext_get (fields : FieldList) (body₁ body₂ : Body fields)
    (h : ∀ i, Body.get fields body₁ i = Body.get fields body₂ i) : body₁ = body₂ := by
  induction fields with
  | nil => rfl
  | cons f fields ih =>
      have hfirst : body₁.1 = body₂.1 := h ⟨0, Nat.succ_pos _⟩
      have hrest : body₁.2 = body₂.2 :=
        ih body₁.2 body₂.2 fun i => h ⟨i + 1, Nat.succ_lt_succ i.isLt⟩
      exact Prod.ext hfirst hrest

/-- What a handler can read and assign of its response. -/
inductive ResponseMember (fields : FieldList) where
  | result
  | uuid
  | timestamp
  | way
  | field (i : Fin fields.length)
  deriving DecidableEq

/-- The values of a member. -/
def ResponseMember.Val {fields : FieldList} : ResponseMember fields → Type
  | .result => BitVec 32
  | .uuid => BitVec 64
  | .timestamp => BitVec 64
  | .way => BitVec 16
  | .field i => (fields.get i).2.Val

/-- The members that `handle_request` leaves to `handle()`. -/
def ResponseMember.Left {fields : FieldList} : ResponseMember fields → Prop
  | .result | .way => False
  | .uuid | .timestamp | .field _ => True

namespace TcpResponse

variable {fields : FieldList}

/-- A member of a response. -/
def get (m : TcpResponse (Body fields)) : (p : ResponseMember fields) → p.Val
  | .result => m.result
  | .uuid => m.header.uuid
  | .timestamp => m.header.timestamp
  | .way => m.header.way
  | .field i => Body.get fields m.body i

/-- Assigning a member of a response. -/
def set (m : TcpResponse (Body fields)) : (p : ResponseMember fields) → p.Val →
    TcpResponse (Body fields)
  | .result, v => { m with result := v }
  | .uuid, v => { m with header := { m.header with uuid := v } }
  | .timestamp, v => { m with header := { m.header with timestamp := v } }
  | .way, v => { m with header := { m.header with way := v } }
  | .field i, v => { m with body := Body.set fields m.body i v }

/-- The members of a response are assigned one by one. -/
def members (fields : FieldList) :
    Members (TcpResponse (Body fields)) (@ResponseMember.Val fields) where
  get := get
  set := set
  get_set_self m p v := by
    cases p with
    | result | uuid | timestamp | way => rfl
    | field i => exact Body.get_set_self fields m.body i v
  get_set_ne m p q v h := by
    cases p with
    | result | uuid | timestamp | way =>
        cases q with
        | result | uuid | timestamp | way | field j => first | rfl | exact absurd rfl h
    | field i =>
        cases q with
        | result | uuid | timestamp | way => rfl
        | field j =>
            exact Body.get_set_ne fields m.body v fun heq => h (congrArg ResponseMember.field heq)

/-- A response is the values of its members. -/
theorem ext_get {m₁ m₂ : TcpResponse (Body fields)} (h : ∀ p, m₁.get p = m₂.get p) : m₁ = m₂ := by
  obtain ⟨result₁, ⟨uuid₁, timestamp₁, way₁⟩, body₁⟩ := m₁
  obtain ⟨result₂, ⟨uuid₂, timestamp₂, way₂⟩, body₂⟩ := m₂
  obtain rfl : result₁ = result₂ := h .result
  obtain rfl : uuid₁ = uuid₂ := h .uuid
  obtain rfl : timestamp₁ = timestamp₂ := h .timestamp
  obtain rfl : way₁ = way₂ := h .way
  obtain rfl := Body.ext_get fields body₁ body₂ fun i => h (.field i)
  rfl

end TcpResponse

/-! ### The code -/

/-- How a segment of `handle()` ends: at a suspension point with its local variables, with an error
code, or by an exception. -/
inductive HandleEnd (L : Type) where
  | suspended (locals : L)
  | returned (ec : BitVec 32)
  | thrown

/-- A segment of the `handle()` of a handler. -/
abbrev Segment (fields responseFields : FieldList) (L : Type) :=
  Code (@ResponseMember.Val responseFields) (TcpRequest (Body fields)) (HandleEnd L)

/-- Running a segment on the request and the response of the handler. -/
def Segment.run {fields responseFields : FieldList} {L : Type}
    (segment : Segment fields responseFields L) (request : TcpRequest (Body fields))
    (response : TcpResponse (Body responseFields)) :
    HandleEnd L × TcpRequest (Body fields) × TcpResponse (Body responseFields) :=
  Code.run (TcpResponse.members responseFields) segment request response

/-- The code of `handle()`: the segment up to the first suspension point, and the segment behind a
suspension point with the input `X` it waited for. -/
structure HandleCode (fields responseFields : FieldList) (L X : Type) where
  start : Segment fields responseFields L
  resume : L → X → Segment fields responseFields L

namespace HandleCode

variable {fields responseFields : FieldList} {L X : Type}

/-- What is read of the response behind the end of a segment: the members that the code relies on at
a suspension point, and what is committed when it returns. -/
def needs (facts : L → TcpRequest (Body fields) → ResponseMember responseFields → Prop) :
    HandleEnd L → TcpRequest (Body fields) → ResponseMember responseFields → Prop
  | .suspended locals, request, p => facts locals request p
  | .returned _, _, p => p.Left
  | .thrown, _, _ => False

/-- `handle()` reads only the `known` members of its response and those it has assigned, and by the
time it returns it has assigned all others that are committed. -/
structure Definite (code : HandleCode fields responseFields L X)
    (facts : L → TcpRequest (Body fields) → ResponseMember responseFields → Prop)
    (request : TcpRequest (Body fields)) (known : ResponseMember responseFields → Prop) : Prop where
  start : code.start.Definite (needs facts) request known
  resume : ∀ locals x request,
    (code.resume locals x).Definite (needs facts) request (facts locals request)

/-- Two responses agree in a set of members. -/
abbrev Agree (known : ResponseMember responseFields → Prop)
    (response₁ response₂ : TcpResponse (Body responseFields)) : Prop :=
  (TcpResponse.members responseFields).Agree known response₁ response₂

variable {code : HandleCode fields responseFields L X}
  {facts : L → TcpRequest (Body fields) → ResponseMember responseFields → Prop}
  {request : TcpRequest (Body fields)} {known : ResponseMember responseFields → Prop}
  {response₁ response₂ : TcpResponse (Body responseFields)}

/-- The first segment does the same on two responses that agree in what is known. -/
theorem Definite.start_run_eq (h : code.Definite facts request known)
    (hagree : Agree known response₁ response₂) :
    ∃ e request' response₁' response₂',
      Segment.run code.start request response₁ = (e, request', response₁') ∧
      Segment.run code.start request response₂ = (e, request', response₂') ∧
      Agree (needs facts e request') response₁' response₂' :=
  h.start.run_eq hagree

/-- So does the segment behind a suspension point, on responses that agree in what the code relies
on there. -/
theorem Definite.resume_run_eq (h : code.Definite facts request known) {locals : L}
    {request₁ : TcpRequest (Body fields)}
    (hagree : Agree (facts locals request₁) response₁ response₂) (x : X) :
    ∃ e request' response₁' response₂',
      Segment.run (code.resume locals x) request₁ response₁ = (e, request', response₁') ∧
      Segment.run (code.resume locals x) request₁ response₂ = (e, request', response₂') ∧
      Agree (needs facts e request') response₁' response₂' :=
  (h.resume locals x request₁).run_eq hagree

end HandleCode

end Aquarius
