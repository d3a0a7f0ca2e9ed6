import Aquarius.Library.Text
import Aquarius.TcpProtocol

/-!
# HTTP Messages

`http_header` (`virgo/http_header.hpp`) and `basic_http_protocol`
(`virgo/basic_http_protocol.hpp`), for requests and responses alike, over any body that
implements the `serialization` interface.

The fields are an `std::unordered_map`. `HttpFields` is its contents; the order in which it
enumerates them is not specified, so it is a parameter (`enumerate`) that may be any
permutation, after every change another one.

`commit` always writes the JSON text of the body. `consume` chooses the format by the `way` of
its own header, which is not on the wire and is zero, that is binary, in a new message.

## Main results

* `HttpHeader.deserialize_serialize_of_crlfFree`: **the header round trip**, for fields without
  line ends.
* `roundTrip_iff`: exactly when a message survives `commit` and `consume`.
* `not_roundTrip_number`: a body with the number 5 arrives as 123, the code of the brace its
  JSON text starts with.
-/

open Decoding

namespace Aquarius

/-! ### The header -/

/-- The contents of `fields_`. -/
abbrev HttpFields := List (Bytes × Bytes)

namespace HttpFields

/-- `fields_[key] = v` -/
def setField (fields : HttpFields) (key v : Bytes) : HttpFields :=
  if fields.any (·.1 = key) then fields.map fun f => if f.1 = key then (key, v) else f
  else fields ++ [(key, v)]

/-- `fields_.emplace(key, v)`, which keeps a value that is there -/
def emplace (fields : HttpFields) (key v : Bytes) : HttpFields :=
  if fields.any (·.1 = key) then fields else fields ++ [(key, v)]

/-- The keys of a map are distinct. -/
def Distinct (fields : HttpFields) : Prop := (fields.map Prod.fst).Nodup

end HttpFields

/-- The syntax of a header field: no line end in it, and no colon in the name. -/
structure FieldWellFormed (f : Bytes × Bytes) : Prop where
  name : ∀ b ∈ f.1, b ≠ 58 ∧ b ≠ 13 ∧ b ≠ 10
  value : ∀ b ∈ f.2, b ≠ 13 ∧ b ≠ 10

/-- No line end occurs in the text; a lone carriage return or line feed may. -/
def CrlfFree (s : Bytes) : Prop := ∀ p q, s ≠ p ++ 13 :: 10 :: q

/-- A header field that `deserialize` can tell from the next one: no line end in it, and no
colon in the name. -/
structure FieldCrlfFree (f : Bytes × Bytes) : Prop where
  colon : ∀ b ∈ f.1, b ≠ 58
  name : CrlfFree f.1
  value : CrlfFree f.2

/-- A text without a carriage return has no line end in it. -/
theorem crlfFree_of_forall_ne {s : Bytes} (h : ∀ b ∈ s, b ≠ 13) : CrlfFree s := by
  rintro p q rfl
  exact h 13 (List.mem_append_right p (List.mem_cons_self ..)) rfl

theorem crlfFree_nil : CrlfFree [] := fun p _ h => absurd h.symm (by simp)

/-- A byte that is no part of a line end keeps two texts apart. -/
theorem CrlfFree.append_cons {s t : Bytes} (hs : CrlfFree s) {b : UInt8} (hb : b ≠ 13 ∧ b ≠ 10)
    (ht : CrlfFree t) : CrlfFree (s ++ b :: t) := by
  intro p q h
  rcases List.append_eq_append_iff.mp h with ⟨a, rfl, ha⟩ | ⟨c, rfl, hq⟩
  · rcases a with _ | ⟨a₁, a⟩
    · exact hb.1 (List.cons.inj ha).1
    · exact ht a q (List.cons.inj ha).2
  · rcases c with _ | ⟨c₁, _ | ⟨c₂, c⟩⟩
    · exact hb.1 (List.cons.inj hq).1.symm
    · exact hb.2 (List.cons.inj (List.cons.inj hq).2).1.symm
    · obtain ⟨rfl, htail⟩ := List.cons.inj hq
      obtain ⟨rfl, -⟩ := List.cons.inj htail
      exact hs p c rfl

/-- A well-formed field is free of line ends. -/
theorem FieldWellFormed.crlfFree {f : Bytes × Bytes} (h : FieldWellFormed f) :
    FieldCrlfFree f where
  colon b hb := (h.name b hb).1
  name := crlfFree_of_forall_ne fun b hb => (h.name b hb).2.1
  value := crlfFree_of_forall_ne fun b hb => (h.value b hb).1

/-- The members of `http_header`, with their defaults. -/
structure HttpHeader where
  fields : HttpFields := []
  way : BitVec 16 := 0

/-- `std::format("{}: {}\r\n", s.first, s.second)`, without the line end -/
def fieldLine (f : Bytes × Bytes) : Bytes := f.1 ++ 58 :: 32 :: f.2

/-- `"\r\n"` -/
def crlf : Bytes := [13, 10]

namespace HttpHeader

/-- `http_header::serialize`, for the fields in the order they are enumerated. -/
def serialize (fields : HttpFields) : Bytes :=
  (fields.flatMap fun f => fieldLine f ++ crlf) ++ crlf

/-- `std::views::split(crlf)`. An empty text has one empty piece here and none there; either
way the loop over the pieces ends at once. -/
def splitCrlf : Bytes → List Bytes
  | [] => [[]]
  | 13 :: 10 :: s => [] :: splitCrlf s
  | b :: s =>
      match splitCrlf s with
      | [] => [[b]]
      | piece :: pieces => (b :: piece) :: pieces

/-- The loop of `deserialize` over the pieces, with the fields and `length` so far.
`value.substr(1)` throws when nothing follows the colon. -/
def readFields : HttpFields → ℕ → List Bytes → HttpFields × Except Fault ℕ
  | fields, length, [] => (fields, .ok length)
  | fields, length, str :: pieces =>
      if str.isEmpty then (fields, .ok length)
      else
        match find [58] str with
        | none => (fields, .error .runtimeError)
        | some pos =>
            let value := str.drop (pos + 1)
            if value.isEmpty then (fields, .error .outOfRange)
            else
              readFields (fields.emplace (str.take pos) (value.drop 1))
                (length + (str.length + 2)) pieces

/-- `http_header::deserialize` -/
def deserialize : Reading HttpHeader := fun h buffer =>
  match readFields h.fields 0 (splitCrlf buffer) with
  | (fields, .error e) => ({ h with fields := fields }, .error e)
  | (fields, .ok length) => ({ h with fields := fields }, .ok (buffer.drop (length + 2)))

/-- The line of a field has no line end in it: the colon and the space keep the name and the
value apart. -/
private theorem crlfFree_fieldLine {f : Bytes × Bytes} (hf : FieldCrlfFree f) :
    CrlfFree (fieldLine f) :=
  hf.name.append_cons (by decide) ((crlfFree_nil.append_cons (by decide) hf.value))

/-- A line without a line end in it is split off at its end. -/
theorem splitCrlf_line {line : Bytes} (h : CrlfFree line) (s : Bytes) :
    splitCrlf (line ++ 13 :: 10 :: s) = line :: splitCrlf s := by
  induction line with
  | nil => rfl
  | cons b line ih =>
      have htail : CrlfFree line := by
        rintro p q rfl
        exact h (b :: p) q rfl
      rw [List.cons_append, splitCrlf, ih htail]
      rintro t rfl ht
      cases line with
      | nil => cases ht
      | cons c line =>
          obtain ⟨rfl, -⟩ := List.cons.inj ht
          exact h [] line rfl

/-- The lines of a serialized header, up to the blank one. -/
private theorem splitCrlf_serialize {fields : HttpFields}
    (hfields : ∀ f ∈ fields, FieldCrlfFree f) (s : Bytes) :
    splitCrlf (serialize fields ++ s) = fields.map fieldLine ++ [] :: splitCrlf s := by
  induction fields with
  | nil => rfl
  | cons f fields ih =>
      have hline := crlfFree_fieldLine (hfields f (List.mem_cons_self ..))
      have hcons : serialize (f :: fields) ++ s =
          fieldLine f ++ 13 :: 10 :: (serialize fields ++ s) := by
        simp [serialize, crlf]
      rw [hcons, splitCrlf_line hline, ih fun g hg => hfields g (List.mem_cons_of_mem _ hg)]
      rfl

/-- The colon is found behind the name. -/
theorem find_colon {name : Bytes} (h : ∀ b ∈ name, b ≠ 58) (s : Bytes) :
    find [58] (name ++ 58 :: s) = some name.length := by
  induction name with
  | nil => rfl
  | cons b name ih =>
      have hb : b ≠ 58 := h b (List.mem_cons_self ..)
      have hpre : ¬ List.isPrefixOf [58] (b :: (name ++ 58 :: s)) = true := by
        rw [List.isPrefixOf_iff_prefix, List.cons_prefix_cons]
        exact fun hcons => hb hcons.1.symm
      rw [List.cons_append, find, if_neg hpre, ih fun c hc => h c (List.mem_cons_of_mem _ hc)]
      rfl

/-- The loop adds the fields one by one, in the order of the lines. -/
private theorem readFields_lines {fields : HttpFields}
    (hfields : ∀ f ∈ fields, FieldCrlfFree f) (pieces : List Bytes) :
    ∀ (acc : HttpFields) (length : ℕ), HttpFields.Distinct (acc ++ fields) →
      readFields acc length (fields.map fieldLine ++ [] :: pieces) =
        (acc ++ fields, .ok (length + (fields.flatMap fun f => fieldLine f ++ crlf).length)) := by
  induction fields with
  | nil =>
      intro acc length _
      rw [List.append_nil]
      rfl
  | cons f fields ih =>
      intro acc length hdistinct
      have hf := hfields f (List.mem_cons_self ..)
      have hcolon : find [58] (fieldLine f) = some f.1.length :=
        find_colon hf.colon _
      have hdrop : (fieldLine f).drop (f.1.length + 1) = 32 :: f.2 := by
        rw [fieldLine, List.drop_append, List.drop_of_length_le (Nat.le_succ _),
          Nat.add_sub_cancel_left]
        rfl
      have htake : (fieldLine f).take f.1.length = f.1 := List.take_left
      have hnew : acc.emplace f.1 f.2 = acc ++ [f] := by
        rw [HttpFields.emplace, if_neg]
        rw [List.any_eq_true]
        rintro ⟨g, hg, hkey⟩
        rw [HttpFields.Distinct, List.map_append, List.map_cons, List.nodup_append] at hdistinct
        exact hdistinct.2.2 g.1 (List.mem_map_of_mem hg) f.1 (List.mem_cons_self ..)
          (of_decide_eq_true hkey)
      have hdistinct' : HttpFields.Distinct (acc ++ [f] ++ fields) := by
        rwa [List.append_assoc, List.singleton_append]
      rw [List.map_cons, List.cons_append, readFields, if_neg (by simp [fieldLine]), hcolon]
      simp only [hdrop, htake, List.isEmpty_cons, Bool.false_eq_true, if_false, List.drop_one,
        List.tail_cons, hnew]
      rw [ih (fun g hg => hfields g (List.mem_cons_of_mem _ hg)) _ _ hdistinct',
        List.append_assoc, List.singleton_append, List.flatMap_cons, List.length_append,
        List.length_append]
      congr 2
      simp only [crlf, List.length_cons, List.length_nil]
      omega

/-- **The header round trip.** Fields with distinct names that are free of line ends, and of
colons in their names, are read back into a new header, and the bytes behind the blank line are
left. -/
theorem deserialize_serialize_of_crlfFree {fields : HttpFields}
    (hfields : ∀ f ∈ fields, FieldCrlfFree f) (hdistinct : fields.Distinct) (s : Bytes) :
    deserialize {} (serialize fields ++ s) = ({ fields := fields }, .ok s) := by
  have hloop := readFields_lines hfields (splitCrlf s) [] 0 hdistinct
  have hlen : (fields.flatMap fun f => fieldLine f ++ crlf).length + 2 =
      (serialize fields).length := by
    rw [serialize, List.length_append]
    rfl
  rw [deserialize, splitCrlf_serialize hfields, hloop]
  simp only [List.nil_append, Nat.zero_add, hlen, List.drop_left]

/-- The header round trip for well-formed fields. -/
theorem deserialize_serialize {fields : HttpFields}
    (hfields : ∀ f ∈ fields, FieldWellFormed f) (hdistinct : fields.Distinct) (s : Bytes) :
    deserialize {} (serialize fields ++ s) = ({ fields := fields }, .ok s) :=
  deserialize_serialize_of_crlfFree (fun f hf => (hfields f hf).crlfFree) hdistinct s

end HttpHeader

/-! ### The message -/

/-- `enum class http_method` -/
inductive HttpMethod where
  | post
  | get
  | options
  | head
  | put
  | delete
  deriving DecidableEq, Repr

/-- `basic_http_protocol` -/
structure HttpMessage (B : Type) where
  header : HttpHeader := {}
  body : B
  method : HttpMethod := .post

/-- `http_content_length` -/
def contentLengthKey : Bytes := [67, 111, 110, 116, 101, 110, 116, 45, 76, 101, 110, 103, 116, 104]

/-- The fields with `content_length(bytes)` set, when there are any bytes. -/
def withContentLength (fields : HttpFields) (bytes : ℕ) : HttpFields :=
  if bytes ≠ 0 then fields.setField contentLengthKey (decimal bytes) else fields

namespace HttpMessage

variable {B : Type} (ser : Serialization B) (enumerate : HttpFields → HttpFields)

/-- A newly constructed message. -/
def create : HttpMessage B := { body := ser.create }

/-- `commit`: the message afterwards, the bytes written and the error code. -/
def commit (m : HttpMessage B) : HttpMessage B × Bytes × ProtoError :=
  match ser.toJson m.body with
  | (_, some _) => (m, [], .commit)
  | (text, none) =>
      if m.method = .get then (m, HttpHeader.serialize (enumerate m.header.fields), .success)
      else
        let fields := withContentLength m.header.fields text.length
        ({ m with header := { m.header with fields := fields } },
          HttpHeader.serialize (enumerate fields) ++ text, .success)

/-- The `try` block of `consume`. -/
def consume : Reading (HttpMessage B) := fun m buffer =>
  match m.header.deserialize buffer with
  | (header, .error e) => ({ m with header := header }, .error e)
  | (header, .ok buffer) =>
      let body := readBody ser header.way m.body buffer
      ({ m with header := header, body := body.1 }, body.2)

/-- The message survives: what `commit` writes is consumed by a new message without an error,
and gives the same fields, with `Content-Length` set, and the same body. -/
def RoundTrip (m : HttpMessage B) : Prop :=
  (m.commit ser enumerate).2.2 = .success ∧
    ((create ser).consume ser (m.commit ser enumerate).2.1).1.header.fields.Perm
      (withContentLength m.header.fields (ser.toJson m.body).1.length) ∧
    ((create ser).consume ser (m.commit ser enumerate).2.1).1.body = m.body ∧
    errorCode ((create ser).consume ser (m.commit ser enumerate).2.1).2 = .success

end HttpMessage

/-! ### The message round trip -/

/-- What holds of every field and of the new one holds of every field afterwards. -/
theorem forall_setField {P : Bytes × Bytes → Prop} {fields : HttpFields} {key v : Bytes}
    (hfields : ∀ f ∈ fields, P f) (hnew : P (key, v)) : ∀ f ∈ fields.setField key v, P f := by
  intro f hf
  rw [HttpFields.setField] at hf
  split at hf
  · obtain ⟨g, hg, rfl⟩ := List.mem_map.mp hf
    split
    · exact hnew
    · exact hfields g hg
  · rcases List.mem_append.mp hf with hf | hf
    · exact hfields f hf
    · rw [List.mem_singleton.mp hf]
      exact hnew

/-- A field that was set has its new value and no other. -/
theorem mem_setField_self {fields : HttpFields} {key v w : Bytes} :
    (key, w) ∈ fields.setField key v ↔ w = v := by
  rw [HttpFields.setField]
  split
  · rename_i hany
    obtain ⟨f, hf, hkey⟩ := List.any_eq_true.mp hany
    constructor
    · intro hmem
      obtain ⟨g, -, hg⟩ := List.mem_map.mp hmem
      split at hg
      · exact (Prod.mk.inj hg).2.symm
      · rename_i hne
        exact absurd (congrArg Prod.fst hg) hne
    · rintro rfl
      exact List.mem_map.mpr ⟨f, hf, if_pos (of_decide_eq_true hkey)⟩
  · rename_i hany
    constructor
    · intro hmem
      rcases List.mem_append.mp hmem with hmem | hmem
      · exact absurd (List.any_eq_true.mpr ⟨_, hmem, decide_eq_true rfl⟩) hany
      · exact (Prod.mk.inj (List.mem_singleton.mp hmem)).2
    · rintro rfl
      exact List.mem_append_right _ (List.mem_singleton.mpr rfl)

/-- Setting a field keeps the names distinct. -/
theorem distinct_setField {fields : HttpFields} (key v : Bytes)
    (hdistinct : fields.Distinct) : (fields.setField key v).Distinct := by
  rw [HttpFields.setField]
  split
  · have hkeys : (fields.map fun f => if f.1 = key then (key, v) else f).map Prod.fst =
        fields.map Prod.fst := by
      rw [List.map_map]
      refine List.map_congr_left fun f _ => ?_
      rw [Function.comp_apply]
      split
      · rename_i hf
        exact hf.symm
      · rfl
    rw [HttpFields.Distinct, hkeys]
    exact hdistinct
  · rename_i hany
    rw [HttpFields.Distinct, List.map_append, List.map_singleton, List.nodup_append]
    refine ⟨hdistinct, List.pairwise_singleton _ _, ?_⟩
    rintro a ha b hb rfl
    obtain ⟨f, hf, rfl⟩ := List.mem_map.mp ha
    refine hany (List.any_eq_true.mpr ⟨f, hf, ?_⟩)
    exact decide_eq_true (List.mem_singleton.mp hb)

/-- A numeral is a well-formed value of `Content-Length`. -/
theorem wellFormed_contentLength (n : ℕ) :
    FieldWellFormed (contentLengthKey, decimal n) where
  name := by simp [contentLengthKey]
  value b hb := by
    have hdigit := isDigit_of_mem_decimal hb
    constructor <;> rintro rfl <;> exact absurd hdigit (by decide)

section RoundTrip

variable {B : Type} {ser : Serialization B} {enumerate : HttpFields → HttpFields}
  {m : HttpMessage B}

/-- What a new message makes of the bytes `commit` writes: the fields arrive, and the JSON
text is read as a binary body. -/
private theorem consume_commit_eq (henumerate : ∀ fields, (enumerate fields).Perm fields)
    (hfields : ∀ f ∈ m.header.fields, FieldWellFormed f) (hdistinct : m.header.fields.Distinct)
    (hmethod : m.method ≠ .get) {text : Bytes} (hjson : ser.toJson m.body = (text, none)) :
    (m.commit ser enumerate).2.2 = .success ∧
      (HttpMessage.create ser).consume ser (m.commit ser enumerate).2.1 =
        ({ header := { fields := enumerate (withContentLength m.header.fields text.length) }
           body := (ser.fromBinary ser.create text).1 },
          (ser.fromBinary ser.create text).2) := by
  have hcommit : m.commit ser enumerate =
      ({ m with header := { m.header with
          fields := withContentLength m.header.fields text.length } },
        HttpHeader.serialize (enumerate (withContentLength m.header.fields text.length)) ++ text,
        .success) := by
    rw [HttpMessage.commit, hjson]
    simp only [if_neg hmethod]
  have hsent : (∀ f ∈ withContentLength m.header.fields text.length, FieldWellFormed f) ∧
      (withContentLength m.header.fields text.length).Distinct := by
    rw [withContentLength]
    split
    · exact ⟨forall_setField hfields (wellFormed_contentLength _),
        distinct_setField _ _ hdistinct⟩
    · exact ⟨hfields, hdistinct⟩
  have hperm := henumerate (withContentLength m.header.fields text.length)
  have hheader := HttpHeader.deserialize_serialize
    (fun f hf => hsent.1 f (hperm.mem_iff.mp hf))
    ((hperm.map Prod.fst).nodup_iff.mpr hsent.2) text
  refine ⟨by rw [hcommit], ?_⟩
  rw [hcommit, HttpMessage.consume]
  simp only [HttpMessage.create, hheader]
  rfl

/-- **The HTTP message round trip.** For every body type and codec, all well-formed fields in
whatever order they are enumerated, every method but `GET` and every body that is written as
JSON without an exception: the message survives `commit` and `consume` if and only if the
binary reader, run on the JSON text, gives the body back. -/
theorem roundTrip_iff (ser : Serialization B) (enumerate : HttpFields → HttpFields)
    (henumerate : ∀ fields, (enumerate fields).Perm fields) (m : HttpMessage B)
    (hfields : ∀ f ∈ m.header.fields, FieldWellFormed f) (hdistinct : m.header.fields.Distinct)
    (hmethod : m.method ≠ .get) (hjson : (ser.toJson m.body).2 = none) :
    m.RoundTrip ser enumerate ↔
      ∃ rest, ser.fromBinary ser.create (ser.toJson m.body).1 = (m.body, .ok rest) := by
  have htext : ser.toJson m.body = ((ser.toJson m.body).1, none) := Prod.ext rfl hjson
  generalize (ser.toJson m.body).1 = text at htext
  obtain ⟨hsuccess, hconsume⟩ := consume_commit_eq henumerate hfields hdistinct hmethod htext
  rw [HttpMessage.RoundTrip, hconsume, htext]
  simp only [hsuccess, true_and]
  constructor
  · rintro ⟨-, hbody, hcode⟩
    cases hread : (ser.fromBinary ser.create text).2 with
    | error e =>
        rw [hread] at hcode
        cases hcode
    | ok rest => exact ⟨rest, Prod.ext hbody hread⟩
  · rintro ⟨rest, hread⟩
    rw [hread]
    exact ⟨henumerate _, rfl, rfl⟩

end RoundTrip

/-! ### A body of one number -/

/-- The JSON methods round trip at a body. -/
def Serialization.JsonCorrect {B : Type} (ser : Serialization B) (body : B) : Prop :=
  (ser.toJson body).2 = none ∧
    ∀ body₀ : B, ∃ rest, ser.fromJson body₀ (ser.toJson body).1 = (body, .ok rest)

/-- The JSON reader of the body with the one field `uint32 id`. -/
private theorem fromJson_text_id (id : BitVec 32) (body₀ : Body [([105, 100], .uint32)]) :
    idSerialization.fromJson body₀ (NumberValue.text (.object [105, 100] id.toNat)) =
      ((id, ()), .ok (NumberValue.text (.object [105, 100] id.toNat))) := by
  have hget : numberJson.get [105, 100] .uint32 (NumberValue.object [105, 100] id.toNat) =
      some id := by
    have hfits : [105, 100] = ([105, 100] : Bytes) ∧ id.toNat < 2 ^ 63 := ⟨rfl, by omega⟩
    have hid : BitVec.ofNat 32 id.toNat = id := by rw [BitVec.ofNat_toNat, BitVec.setWidth_eq]
    exact (if_pos hfits).trans (congrArg some hid)
  have hparse : numberJson.parse (NumberValue.text (.object [105, 100] id.toNat)) =
      some (NumberValue.object [105, 100] id.toNat) :=
    NumberValue.ofText_text_id id.toNat
  exact Generated.fromJson_of_get numberJson hparse rfl hget body₀

/-- The codecs of the body with the one field `uint32 id` are correct. -/
private theorem idSerialization_correct (body : Body [([105, 100], .uint32)]) :
    idSerialization.BinaryFramed body ∧ idSerialization.JsonCorrect body := by
  refine ⟨Generated.binaryFramed .little _ numberJson _ _ ⟨trivial, trivial⟩, rfl, ?_⟩
  intro body₀
  obtain ⟨id, ⟨⟩⟩ := body
  exact ⟨_, fromJson_text_id id body₀⟩

/-- A `POST` of a number, with one header field. -/
def idMessage (id : BitVec 32) : HttpMessage (Body [([105, 100], .uint32)]) where
  header := { fields := [([88], [49])] }
  body := (id, ())

/-- The field of the message is well formed. -/
private theorem idMessage_wellFormed (id : BitVec 32) :
    (∀ f ∈ (idMessage id).header.fields, FieldWellFormed f) ∧
      (idMessage id).header.fields.Distinct := by
  refine ⟨fun f hf => ?_, List.pairwise_singleton _ _⟩
  obtain rfl := List.mem_singleton.mp hf
  exact ⟨by simp, by simp⟩

/-- The number 123 is the code of the brace the text starts with, so it survives. -/
theorem roundTrip_brace : (idMessage 123).RoundTrip idSerialization List.reverse :=
  (roundTrip_iff idSerialization List.reverse List.reverse_perm (idMessage 123)
    (idMessage_wellFormed 123).1 (idMessage_wellFormed 123).2 (by decide) rfl).mpr ⟨_, rfl⟩

/-- **The message does not survive.** Both codecs of the body are correct at every value, the
field is well formed and the method is `POST`, but the number 5 arrives as 123. -/
theorem not_roundTrip_number :
    (∀ body, idSerialization.BinaryFramed body ∧ idSerialization.JsonCorrect body) ∧
      (∀ f ∈ (idMessage 5).header.fields, FieldWellFormed f) ∧ (idMessage 5).method = .post ∧
      ((HttpMessage.create idSerialization).consume idSerialization
        ((idMessage 5).commit idSerialization List.reverse).2.1).1.body = (123#32, ()) ∧
      ¬ (idMessage 5).RoundTrip idSerialization List.reverse := by
  obtain ⟨hfields, hdistinct⟩ := idMessage_wellFormed 5
  have hjson : idSerialization.toJson (idMessage 5).body = (_, none) := rfl
  obtain ⟨-, hconsume⟩ := consume_commit_eq List.reverse_perm hfields hdistinct (by decide) hjson
  have hbody : ((HttpMessage.create idSerialization).consume idSerialization
      ((idMessage 5).commit idSerialization List.reverse).2.1).1.body = (123#32, ()) := by
    rw [hconsume]
    rfl
  refine ⟨idSerialization_correct, hfields, rfl, hbody, ?_⟩
  rintro ⟨-, -, hsame, -⟩
  rw [hbody] at hsame
  exact absurd (congrArg Prod.fst hsame) (by decide)

end Aquarius
