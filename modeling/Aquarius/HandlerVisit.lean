import Aquarius.TcpProtocol

/-!
# What a Handler Sees of Earlier Requests

Every router has one handler object with one request (`ip/handler.hpp`), and `do_complete`
(`basic_context.hpp`) reads each payload into it with `visit`. `consume` assigns the members
one by one and stops at the first exception, and `do_complete` does not look at the error
code it returns: `handle()` runs on whatever the request holds then.

The bodies are the generated ones, over arbitrary fields, and no handler assigns to its own
request. `unread` lists the fields that a payload leaves as they were, from the payload
alone:

* in binary, the field whose reading throws and all behind it;
* in JSON, all fields when the text does not parse or is not an object, else the first field
  without a member of its name and kind and all behind it;
* as key-value pairs none, since every field is reset;
* for any other `way`, all.

## Main results

* `visit_of_settled`: where the header is read and every unread field has a type with a
  single value, the request afterwards does not depend on the request before.
* `noCarryOver_iff`: **the exact condition.** The request that `handle()` sees for a payload
  is the same after all histories if and only if the payload is such a one.
* `not_noCarryOver_login`: a login that ends behind the user name runs with the password of
  the client before.
-/

open Decoding

namespace Aquarius

/-! ### Visiting -/

section Visiting

variable {B : Type} (ser : Serialization B)

/-- `handler::visit` as `do_complete` calls it: the error code is dropped and the request
stays as `consume` left it. There is no outcome once undefined behaviour was reached. -/
def visit (m : TcpRequest B) (payload : Bytes) : Option (TcpRequest B) :=
  match m.consume ser payload with
  | (_, .error .undefined) => none
  | (m, _) => some m

variable {ser}

/-- A defined outcome of `consume` is what `visit` leaves. -/
theorem visit_of_consume {m m' : TcpRequest B} {payload : Bytes} {outcome : Except Fault Bytes}
    (h : m.consume ser payload = (m', outcome)) (hdefined : outcome ≠ .error .undefined) :
    visit ser m payload = some m' := by
  rw [visit, h]
  split
  · rename_i heq
    obtain ⟨-, rfl⟩ := Prod.mk.inj heq
    exact absurd rfl hdefined
  · rename_i heq
    rw [← (Prod.mk.inj heq).1]

/-- What `visit` leaves is what `consume` made of the request. -/
theorem consume_of_visit {m m' : TcpRequest B} {payload : Bytes}
    (h : visit ser m payload = some m') : (m.consume ser payload).1 = m' := by
  rw [visit] at h
  split at h
  · cases h
  · rename_i heq
    rw [heq]
    exact Option.some.inj h

variable (ser)

/-- The request of a handler after the requests of a history. -/
def visitAll (history : List Bytes) : Option (TcpRequest B) :=
  history.foldlM (visit ser) (TcpRequest.create ser)

/-- The request after a history of one payload that is read without an exception. -/
theorem visitAll_singleton {m : TcpRequest B} {payload rest : Bytes}
    (h : (TcpRequest.create ser).consume ser payload = (m, .ok rest)) :
    visitAll ser [payload] = some m := by
  rw [visitAll, List.foldlM_cons, visit_of_consume h (by simp)]
  rfl

/-- Nothing is carried over to a payload: after any two histories, `handle()` sees the same
request for it. -/
def NoCarryOver (payload : Bytes) : Prop :=
  ∀ history₁ history₂ m₁ m₂, visitAll ser history₁ = some m₁ → visitAll ser history₂ = some m₂ →
    ∃ m, visit ser m₁ payload = some m ∧ visit ser m₂ payload = some m

end Visiting

/-! ### Types with a single value -/

mutual

/-- The types with a single value: aggregates of such, down to the empty one. -/
def Ty.hasOneValue : Ty → Bool
  | .struct _ fields => Ty.haveOneValue fields
  | _ => false

/-- Every member of an aggregate has a single value. -/
def Ty.haveOneValue : List Ty → Bool
  | [] => true
  | t :: ts => t.hasOneValue && Ty.haveOneValue ts

end

mutual

/-- Any two values of such a type are equal. -/
theorem Ty.eq_of_hasOneValue : (t : Ty) → t.hasOneValue = true → (v w : t.Val) → v = w
  | .struct _ fields, h, v, w => Ty.eq_of_haveOneValue fields h v w
  | .uint32, h, _, _ | .uint64, h, _, _ | .int16, h, _, _ | .int32, h, _, _
  | .int64, h, _, _ | .char, h, _, _ | .bool, h, _, _ | .float, h, _, _
  | .double, h, _, _ | .fixed32, h, _, _ | .fixed64, h, _, _ | .string, h, _, _
  | .vector _, h, _, _ | .map _ _, h, _, _ => absurd h Bool.false_ne_true

/-- The same for the members of an aggregate. -/
theorem Ty.eq_of_haveOneValue : (ts : List Ty) → Ty.haveOneValue ts = true →
    (v w : Ty.Fields ts) → v = w
  | [], _, _, _ => rfl
  | t :: ts, h, v, w => by
      obtain ⟨ht, hts⟩ := Bool.and_eq_true_iff.mp h
      exact Prod.ext (Ty.eq_of_hasOneValue t ht v.1 w.1) (Ty.eq_of_haveOneValue ts hts v.2 w.2)

end

mutual

/-- Reading such a type takes no bytes and does not fail. -/
theorem run_fromDatas_of_hasOneValue (order : ByteOrder) (less : KeyLess) (buffer : Bytes) :
    (t : Ty) → t.hasOneValue = true →
      ∃ v, (fromDatas order less t).run buffer = .ok (v, buffer)
  | .struct _ fields, h => run_fromDatasFields_of_haveOneValue order less buffer fields h
  | .uint32, h | .uint64, h | .int16, h | .int32, h | .int64, h | .char, h | .bool, h
  | .float, h | .double, h | .fixed32, h | .fixed64, h | .string, h | .vector _, h
  | .map _ _, h => absurd h Bool.false_ne_true

/-- The same for the members of an aggregate. -/
theorem run_fromDatasFields_of_haveOneValue (order : ByteOrder) (less : KeyLess)
    (buffer : Bytes) : (ts : List Ty) → Ty.haveOneValue ts = true →
      ∃ v, (fromDatasFields order less ts).run buffer = .ok (v, buffer)
  | [], _ => ⟨(), rfl⟩
  | t :: ts, h => by
      obtain ⟨ht, hts⟩ := Bool.and_eq_true_iff.mp h
      obtain ⟨first, hfirst⟩ := run_fromDatas_of_hasOneValue order less buffer t ht
      obtain ⟨rest, hrest⟩ := run_fromDatasFields_of_haveOneValue order less buffer ts hts
      refine ⟨(first, rest), ?_⟩
      rw [fromDatasFields, StateT.run_bind, hfirst]
      change StateT.run (fromDatasFields order less ts >>= fun rest => pure (first, rest)) buffer = _
      rw [StateT.run_bind, hrest]
      rfl

end

mutual

/-- A value of each type that differs from `T{}` wherever the type has another value. -/
def Ty.other : (t : Ty) → t.Val
  | .uint32 => 1#32
  | .uint64 => 1#64
  | .int16 => 1#16
  | .int32 => 1#32
  | .int64 => 1#64
  | .char => 1#8
  | .bool => true
  | .float => 1#32
  | .double => 1#64
  | .fixed32 => 1#32
  | .fixed64 => 1#64
  | .string => ([0] : Bytes)
  | .vector elem => [elem.init]
  | .map key value => [(key.init, value.init)]
  | .struct _ fields => Ty.others fields

/-- Such values for the members of an aggregate. -/
def Ty.others : (ts : List Ty) → Ty.Fields ts
  | [] => ()
  | t :: ts => (t.other, Ty.others ts)

end

mutual

/-- `T{}` keeps the promises of its type. -/
theorem Ty.init_ok {P : BitVec 32 → Prop} (hP : P 0#32) (less : KeyLess) :
    (t : Ty) → t.Ok P less t.init
  | .int32 => hP
  | .string | .vector _ => ⟨Nat.zero_le _, fun _ h => absurd h List.not_mem_nil⟩
  | .map _ _ => ⟨List.Pairwise.nil, Nat.zero_le _, fun _ h => absurd h List.not_mem_nil⟩
  | .struct _ fields => Ty.initFields_ok hP less fields
  | .uint32 | .uint64 | .int16 | .int64 | .char | .bool | .float | .double | .fixed32
  | .fixed64 => trivial

/-- The members of `T{}` keep theirs. -/
theorem Ty.initFields_ok {P : BitVec 32 → Prop} (hP : P 0#32) (less : KeyLess) :
    (ts : List Ty) → Ty.FieldsOk P less ts (Ty.initFields ts)
  | [] => trivial
  | t :: ts => ⟨Ty.init_ok hP less t, Ty.initFields_ok hP less ts⟩

end

mutual

/-- The other value keeps the promises of its type. -/
theorem Ty.other_ok (less : KeyLess) : (t : Ty) → t.Ok FitsDoubled less t.other
  | .int32 => (by decide : FitsDoubled 1#32)
  | .string => ⟨by decide, fun _ _ => trivial⟩
  | .vector elem => by
      refine ⟨(by decide : 1 ≤ maxSize), fun v hv => ?_⟩
      obtain rfl := List.mem_singleton.mp hv
      exact Ty.init_ok (by decide) less elem
  | .map key value => by
      refine ⟨List.pairwise_singleton _ _, (by decide : 1 ≤ maxSize), fun e he => ?_⟩
      obtain rfl := List.mem_singleton.mp he
      exact ⟨Ty.init_ok (by decide) less key, Ty.init_ok (by decide) less value⟩
  | .struct _ fields => Ty.others_ok less fields
  | .uint32 | .uint64 | .int16 | .int64 | .char | .bool | .float | .double | .fixed32
  | .fixed64 => trivial

/-- The same for the members of an aggregate. -/
theorem Ty.others_ok (less : KeyLess) :
    (ts : List Ty) → Ty.FieldsOk FitsDoubled less ts (Ty.others ts)
  | [] => trivial
  | t :: ts => ⟨Ty.other_ok less t, Ty.others_ok less ts⟩

end

mutual

/-- The other value is `T{}` only where the type has a single value. -/
theorem Ty.hasOneValue_of_other_eq : (t : Ty) → t.other = t.init → t.hasOneValue = true
  | .uint32, h | .int32, h | .float, h | .fixed32, h =>
      absurd h (by decide : (1#32 : BitVec 32) ≠ 0#32)
  | .uint64, h | .int64, h | .double, h | .fixed64, h =>
      absurd h (by decide : (1#64 : BitVec 64) ≠ 0#64)
  | .int16, h => absurd h (by decide : (1#16 : BitVec 16) ≠ 0#16)
  | .char, h => absurd h (by decide : (1#8 : BitVec 8) ≠ 0#8)
  | .bool, h => absurd h (by decide : true ≠ false)
  | .string, h | .vector _, h | .map _ _, h => absurd h (List.cons_ne_nil _ _)
  | .struct _ fields, h => Ty.haveOneValue_of_others_eq fields h

/-- The same for the members of an aggregate. -/
theorem Ty.haveOneValue_of_others_eq : (ts : List Ty) → Ty.others ts = Ty.initFields ts →
    Ty.haveOneValue ts = true
  | [], _ => rfl
  | t :: ts, h => Bool.and_eq_true_iff.mpr
      ⟨Ty.hasOneValue_of_other_eq t (congrArg Prod.fst h),
        Ty.haveOneValue_of_others_eq ts (congrArg Prod.snd h)⟩

end

/-! ### Bodies, field by field -/

/-- Two bodies that differ in every field whose type has more than one value. -/
def Apart : (fields : FieldList) → Body fields → Body fields → Prop
  | [], _, _ => True
  | (_, t) :: fields, body₁, body₂ =>
      (body₁.1 = body₂.1 → t.hasOneValue = true) ∧ Apart fields body₁.2 body₂.2

/-- Every field of a list has a type with a single value. -/
def Vacuous (fields : FieldList) : Prop := ∀ f ∈ fields, f.2.hasOneValue = true

/-- A body is apart from itself only if no field has more than one value. -/
theorem vacuous_of_apart_self (fields : FieldList) (body : Body fields)
    (h : Apart fields body body) : Vacuous fields := by
  induction fields with
  | nil => exact fun _ hf => absurd hf List.not_mem_nil
  | cons f fields ih =>
      obtain ⟨hfirst, hrest⟩ := h
      intro g hg
      rcases List.mem_cons.mp hg with rfl | hg
      · exact hfirst rfl
      · exact ih body.2 hrest g hg

/-- Two bodies without a field of more than one value are equal. -/
theorem body_eq_of_vacuous (fields : FieldList) (h : Vacuous fields)
    (body₁ body₂ : Body fields) : body₁ = body₂ := by
  induction fields with
  | nil => rfl
  | cons f fields ih =>
      have hfirst := Ty.eq_of_hasOneValue f.2 (h f List.mem_cons_self) body₁.1 body₂.1
      have hrest := ih (fun g hg => h g (List.mem_cons_of_mem _ hg)) body₁.2 body₂.2
      exact Prod.ext hfirst hrest

/-- The body of other values is apart from the default body. -/
theorem apart_others (fields : FieldList) :
    Apart fields (Ty.others (fields.map Prod.snd)) (Ty.initFields (fields.map Prod.snd)) := by
  induction fields with
  | nil => trivial
  | cons f fields ih => exact ⟨Ty.hasOneValue_of_other_eq f.2, ih⟩

/-- A reading that leaves exactly the fields `unread` as they were, and reaches no undefined
behaviour if these have single values. -/
structure Leaves {fields : FieldList} (read : Body fields → Body fields × Except Fault Bytes)
    (unread : FieldList) : Prop where
  /-- Where nothing is left, the outcome does not depend on the body before. -/
  settled : Vacuous unread → ∀ body₁ body₂, read body₁ = read body₂ ∧
    (read body₁).2 ≠ .error .undefined
  /-- Where the outcome is the same from bodies that are apart, nothing is left. -/
  stale : ∀ body₁ body₂, Apart fields body₁ body₂ → (read body₁).1 = (read body₂).1 →
    Vacuous unread

/-- A reading that assigns nothing leaves all fields. -/
theorem leaves_all {fields : FieldList} (outcome : Except Fault Bytes)
    (h : outcome ≠ .error .undefined) :
    Leaves (fun body : Body fields => (body, outcome)) fields where
  settled hvacuous body₁ body₂ :=
    ⟨congrArg (·, outcome) (body_eq_of_vacuous fields hvacuous body₁ body₂), h⟩
  stale body₁ body₂ hapart heq := by
    obtain rfl : body₁ = body₂ := heq
    exact vacuous_of_apart_self fields body₁ hapart

/-- A reading that assigns the first field and then the others leaves what the others
leave. -/
theorem Leaves.cons {t : Ty} {fields unread : FieldList}
    {read : Body fields → Body fields × Except Fault Bytes} (h : Leaves read unread)
    (name : Bytes) (value : t.Val) :
    Leaves (fun body : Body ((name, t) :: fields) =>
      ((value, (read body.2).1), (read body.2).2)) unread where
  settled hvacuous body₁ body₂ := by
    obtain ⟨heq, hdefined⟩ := h.settled hvacuous body₁.2 body₂.2
    exact ⟨by rw [heq], hdefined⟩
  stale body₁ body₂ hapart heq :=
    h.stale body₁.2 body₂.2 hapart.2 (congrArg Prod.snd heq)

/-! ### What the generated methods leave -/

section Generated

variable (order : ByteOrder) (less : KeyLess) (api : JsonApi)

/-- The fields that `from_binary` does not reach. -/
def unreadBinary : (fields : FieldList) → Bytes → FieldList
  | [], _ => []
  | (name, t) :: fields, buffer =>
      match (fromDatas order less t).run buffer with
      | .error _ => (name, t) :: fields
      | .ok (_, buffer) => unreadBinary fields buffer

/-- The fields that the assignments of `from_json` do not reach. -/
def unreadMembers : (fields : FieldList) → api.Value → FieldList
  | [], _ => []
  | (name, t) :: fields, object =>
      match api.get name t object with
      | none => (name, t) :: fields
      | some _ => unreadMembers fields object

/-- The fields that `from_json` does not reach. -/
def unreadJson (fields : FieldList) (buffer : Bytes) : FieldList :=
  match api.parse buffer with
  | none => fields
  | some object => if api.isObject object then unreadMembers api fields object else fields

/-- The fields that the `switch` of `consume` leaves as they were. -/
def unread (fields : FieldList) (way : BitVec 16) (buffer : Bytes) : FieldList :=
  match SerializeWay.ofWay way with
  | some .binary => unreadBinary order less fields buffer
  | some .json => unreadJson api fields buffer
  | some .kv => []
  | none => fields

/-- `from_binary` leaves the fields it does not reach. A type with a single value is always
read, so the field it stops at has more than one. -/
theorem leaves_fromBinary (fields : FieldList) (buffer : Bytes) :
    Leaves (fun body => Generated.fromBinary order less fields body buffer)
      (unreadBinary order less fields buffer) := by
  induction fields generalizing buffer with
  | nil => exact leaves_all (.ok buffer) (by simp)
  | cons f fields ih =>
      obtain ⟨name, t⟩ := f
      cases hread : (fromDatas order less t).run buffer with
      | ok result =>
          obtain ⟨value, rest⟩ := result
          have hrest := (ih rest).cons name value
          simpa only [Generated.fromBinary, unreadBinary, hread] using hrest
      | error e =>
          simp only [Generated.fromBinary, unreadBinary, hread]
          refine ⟨fun hvacuous => ?_, fun body₁ body₂ hapart heq => ?_⟩
          · obtain ⟨v, hv⟩ := run_fromDatas_of_hasOneValue order less buffer t
              (hvacuous _ List.mem_cons_self)
            rw [hread] at hv
            cases hv
          · obtain rfl : body₁ = body₂ := heq
            exact vacuous_of_apart_self _ body₁ hapart

/-- The assignments of `from_json` leave the fields they do not reach. -/
theorem leaves_assignAll (buffer : Bytes) (fields : FieldList) (object : api.Value) :
    Leaves (fun body => ((Generated.assignAll api fields body object).1,
        (Generated.assignAll api fields body object).2.map fun _ => buffer))
      (unreadMembers api fields object) := by
  induction fields with
  | nil => exact leaves_all (.ok buffer) (by simp)
  | cons f fields ih =>
      obtain ⟨name, t⟩ := f
      cases hget : api.get name t object with
      | none =>
          simp only [Generated.assignAll, unreadMembers, hget]
          exact leaves_all (.error .jsonError) (by simp)
      | some value =>
          have hrest := ih.cons name value
          simpa only [Generated.assignAll, unreadMembers, hget] using hrest

/-- `from_json` leaves the fields it does not reach. -/
theorem leaves_fromJson (fields : FieldList) (buffer : Bytes) :
    Leaves (fun body => Generated.fromJson api fields body buffer)
      (unreadJson api fields buffer) := by
  cases fields with
  | nil =>
      have hnone : unreadJson api [] buffer = [] := by
        rw [unreadJson]
        cases api.parse buffer with
        | none => rfl
        | some object => exact ite_self _
      rw [hnone]
      exact leaves_all (.ok buffer) (by simp)
  | cons f fields =>
      cases hparse : api.parse buffer with
      | none =>
          simp only [Generated.fromJson, unreadJson, hparse]
          exact leaves_all (.error .jsonError) (by simp)
      | some object =>
          by_cases hobject : api.isObject object = true
          · simp only [Generated.fromJson, unreadJson, hparse, if_pos hobject]
            exact leaves_assignAll api buffer (f :: fields) object
          · simp only [Generated.fromJson, unreadJson, hparse, if_neg hobject]
            exact leaves_all (.ok buffer) (by simp)

/-- `from_kv` leaves no field. -/
theorem leaves_fromKv (fields : FieldList) (buffer : Bytes) :
    Leaves (fun body => Generated.fromKv fields body buffer) [] where
  settled _ _ _ := ⟨rfl, by simp [Generated.fromKv]⟩
  stale _ _ _ _ := fun _ hf => absurd hf List.not_mem_nil

/-- The `switch` of `consume` leaves the unread fields. -/
theorem leaves_readBody (fields : FieldList) (way : BitVec 16) (buffer : Bytes) :
    Leaves
      (fun body => readBody (Generated.serialization order less api fields) way body buffer)
      (unread order less api fields way buffer) := by
  rw [readBody, unread]
  cases SerializeWay.ofWay way with
  | none => exact leaves_all (.ok buffer) (by simp)
  | some way =>
      cases way with
      | binary => exact leaves_fromBinary order less fields buffer
      | json => exact leaves_fromJson api fields buffer
      | kv => exact leaves_fromKv fields buffer

end Generated

/-! ### The header -/

/-- Reading a header either assigns all of it, or fails before the `way`, whatever the
header held before. -/
theorem TcpHeader.deserialize_cases (buffer : Bytes) :
    (∃ header rest, ∀ h : TcpHeader, h.deserialize buffer = (header, .ok rest)) ∨
    (∃ e, ∀ h : TcpHeader, ∃ header, h.deserialize buffer = (header, .error e) ∧
      header.way = h.way) := by
  cases huuid : fromDatasInteger 64 buffer with
  | error e =>
      refine .inr ⟨e, fun h => ⟨h, ?_, rfl⟩⟩
      simp only [TcpHeader.deserialize, huuid]
  | ok result =>
      obtain ⟨uuid, buffer₁⟩ := result
      cases htimestamp : fromDatasZigZag 64 buffer₁ with
      | error e =>
          refine .inr ⟨e, fun h => ⟨{ h with uuid := uuid }, ?_, rfl⟩⟩
          simp only [TcpHeader.deserialize, huuid, htimestamp]
      | ok result =>
          obtain ⟨timestamp, buffer₂⟩ := result
          cases hway : fromDatasZigZag 16 buffer₂ with
          | error e =>
              refine .inr ⟨e, fun h => ⟨{ h with uuid := uuid, timestamp := timestamp }, ?_, rfl⟩⟩
              simp only [TcpHeader.deserialize, huuid, htimestamp, hway]
          | ok result =>
              obtain ⟨way, rest⟩ := result
              refine .inl ⟨⟨uuid, timestamp, way⟩, rest, fun h => ?_⟩
              simp only [TcpHeader.deserialize, huuid, htimestamp, hway]

/-- A request whose header is read goes on to its body. -/
theorem TcpRequest.consume_of_header {B : Type} (ser : Serialization B) {header : TcpHeader}
    {payload rest : Bytes}
    (hheader : ∀ h : TcpHeader, h.deserialize payload = (header, .ok rest))
    (m : TcpRequest B) :
    m.consume ser payload = (⟨header, (readBody ser header.way m.body rest).1⟩,
      (readBody ser header.way m.body rest).2) := by
  rw [TcpRequest.consume, hheader]

/-! ### The exact condition -/

section CarryOver

variable (order : ByteOrder) (less : KeyLess) (api : JsonApi) (fields : FieldList)

/-- The payload settles the request: its header is read, and every field its body leaves
unread has a type with a single value. -/
def Settles (payload : Bytes) : Prop :=
  match TcpHeader.deserialize {} payload with
  | (_, .error _) => False
  | (header, .ok buffer) => Vacuous (unread order less api fields header.way buffer)

variable {order less api fields}

/-- **A payload that settles the request** gives the same request from any earlier one. -/
theorem visit_of_settled {payload : Bytes} (h : Settles order less api fields payload)
    (m₁ m₂ : TcpRequest (Body fields)) :
    ∃ m, visit (Generated.serialization order less api fields) m₁ payload = some m ∧
      visit (Generated.serialization order less api fields) m₂ payload = some m := by
  rcases TcpHeader.deserialize_cases payload with ⟨header, rest, hheader⟩ | ⟨e, hheader⟩
  · rw [Settles, hheader] at h
    obtain ⟨heq, hdefined⟩ := (leaves_readBody order less api fields header.way rest).settled h
      m₁.body m₂.body
    have hconsume := TcpRequest.consume_of_header
      (Generated.serialization order less api fields) hheader
    have h₁ := hconsume m₁
    have h₂ := hconsume m₂
    rw [← heq] at h₂
    exact ⟨_, visit_of_consume h₁ hdefined, visit_of_consume h₂ hdefined⟩
  · obtain ⟨header, hfail, -⟩ := hheader {}
    rw [Settles, hfail] at h
    exact h.elim

variable (order less api fields)

/-- A history after which the request has a given `way` other than binary and JSON. -/
private theorem exists_visitAll_way {way : BitVec 16} (hway : way = 2 ∨ way = 3) :
    ∃ m, visitAll (Generated.serialization order less api fields)
        [TcpHeader.serialize ⟨0, 0, way⟩] = some m ∧ m.header.way = way := by
  have hread := TcpHeader.reads_deserialize ⟨0, 0, way⟩ {} []
  rw [List.append_nil] at hread
  have hconsume :
      (TcpRequest.create (Generated.serialization order less api fields)).consume
          (Generated.serialization order less api fields) (TcpHeader.serialize ⟨0, 0, way⟩) =
        (⟨⟨0, 0, way⟩, Ty.initFields (fields.map Prod.snd)⟩, .ok []) := by
    simp only [TcpRequest.consume, TcpRequest.create, hread]
    rcases hway with rfl | rfl <;> rfl
  exact ⟨_, visitAll_singleton _ hconsume, rfl⟩

/-- A history after which every field of the request that can differs from its default. -/
private theorem exists_visitAll_others :
    ∃ history m, visitAll (Generated.serialization order less api fields) history = some m ∧
      m.body = Ty.others (fields.map Prod.snd) := by
  have hframed := Generated.binaryFramed order less api fields (Ty.others (fields.map Prod.snd))
    (Ty.others_ok less _)
  have hconsume := TcpRequest.consume_serialize (rfl : TcpHeader.way {} = 0) hframed
    (TcpRequest.create (Generated.serialization order less api fields)) []
  exact ⟨[_], _, visitAll_singleton _ hconsume, rfl⟩

/-- **The carry-over condition.** For every router with a generated body and every payload:
the request that `handle()` sees is the same after all histories if and only if the payload
settles the request. -/
theorem noCarryOver_iff (payload : Bytes) :
    NoCarryOver (Generated.serialization order less api fields) payload ↔
      Settles order less api fields payload := by
  constructor
  · intro h
    rcases TcpHeader.deserialize_cases payload with ⟨header, rest, hheader⟩ | ⟨e, hheader⟩
    · obtain ⟨history, m₁, hhistory, hbody⟩ := exists_visitAll_others order less api fields
      obtain ⟨m, h₁, h₂⟩ := h history [] m₁ _ hhistory rfl
      have hsame := (consume_of_visit h₁).trans (consume_of_visit h₂).symm
      rw [TcpRequest.consume_of_header _ hheader, TcpRequest.consume_of_header _ hheader,
        hbody] at hsame
      rw [Settles, hheader]
      exact (leaves_readBody order less api fields header.way rest).stale _ _
        (apart_others fields) (congrArg TcpRequest.body hsame)
    · -- the header fails, so the `way` of the earlier request stays
      obtain ⟨m₁, hhistory₁, hway₁⟩ := exists_visitAll_way order less api fields (.inl rfl)
      obtain ⟨m₂, hhistory₂, hway₂⟩ := exists_visitAll_way order less api fields (.inr rfl)
      obtain ⟨m, h₁, h₂⟩ := h _ _ m₁ m₂ hhistory₁ hhistory₂
      obtain ⟨header₁, hfail₁, hkeep₁⟩ := hheader m₁.header
      obtain ⟨header₂, hfail₂, hkeep₂⟩ := hheader m₂.header
      have hsame := (consume_of_visit h₁).trans (consume_of_visit h₂).symm
      simp only [TcpRequest.consume, hfail₁, hfail₂] at hsame
      have hways : m₁.header.way = m₂.header.way := by
        obtain rfl : header₁ = header₂ := congrArg TcpRequest.header hsame
        exact hkeep₁.symm.trans hkeep₂
      rw [hway₁, hway₂] at hways
      exact absurd hways (by decide)
  · intro h history₁ history₂ m₁ m₂ _ _
    exact visit_of_settled h m₁ m₂

end CarryOver

/-- The body of a login: the strings `username` and `password`. -/
def loginSerialization :
    Serialization (Body
      [([117, 115, 101, 114, 110, 97, 109, 101], .string),
        ([112, 97, 115, 115, 119, 111, 114, 100], .string)]) :=
  Generated.serialization .little (stdLess fun _ _ _ => false) numberJson _

/-- **A password is carried over.** After a login of `a` with the password `b`, a login that
ends behind the user name `a` runs with that password; on a new handler it runs with an
empty one. -/
theorem not_noCarryOver_login :
    (visitAll loginSerialization [[0, 0, 0, 1, 97, 1, 98], [0, 0, 0, 1, 97]]).map
        TcpRequest.body = some ([97], [98], ()) ∧
      (visitAll loginSerialization [[0, 0, 0, 1, 97]]).map TcpRequest.body =
        some ([97], [], ()) ∧
      ¬ NoCarryOver loginSerialization [0, 0, 0, 1, 97] := by
  refine ⟨rfl, rfl, fun h => ?_⟩
  obtain ⟨m, h₁, h₂⟩ := h [[0, 0, 0, 1, 97, 1, 98]] [] _ _ rfl rfl
  have hbody : (some ([97], [98], ()) : Option (Bytes × Bytes × Unit)) = some ([97], [], ()) :=
    congrArg (Option.map TcpRequest.body) (h₁.trans h₂.symm)
  exact absurd hbody (by decide)

end Aquarius
