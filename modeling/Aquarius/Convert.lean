import Aquarius.HttpRecv
import Aquarius.HttpResponse

/-!
# The Gateway Between HTTP and TCP

`convert` (`gateway/convert.hpp`) turns the payload of one protocol into that of the other. In
either direction it takes the header of the sender off the front of a buffer, writes a header of
the receiver, and copies what is left. The CORS fields come from the configuration of the
process (`set_options_header`).

The fields of an `http_header` are enumerated in any order, so the serialized fields are any
list with distinct names, and `enumerate` may be any permutation. Names and values may hold lone
carriage returns and line feeds; the body may hold anything.

## Main results

* `contentLength_of_mem`: `content_length()` is the number in the field, wherever it stands.
* `convert_preserves_body`: **neither direction touches the body**, and the header in front of
  it says what it should.
-/

open Decoding

namespace Aquarius

/-! ### Reading header fields -/

namespace HttpFields

/-- `http_header::find`: the value of a field, or an empty text -/
def find (fields : HttpFields) (key : Bytes) : Bytes := (fields.lookup key).getD []

end HttpFields

/-- `http_header::content_length()`, through a `std::stringstream` -/
def HttpFields.contentLength (fields : HttpFields) : ℕ :=
  if (fields.find contentLengthKey).isEmpty then 0
  else extractUnsigned 64 (fields.find contentLengthKey)

/-- A field is found wherever it stands, as the names are distinct. -/
theorem find_of_mem {fields : HttpFields} (hdistinct : fields.Distinct) {key v : Bytes}
    (h : (key, v) ∈ fields) : fields.find key = v := by
  rw [HttpFields.find, OrderedMap.lookup_of_mem hdistinct h]
  rfl

/-- **The length of the body** is read from its field, in whatever order the fields are. -/
theorem contentLength_of_mem {fields : HttpFields} (hdistinct : fields.Distinct) {n : ℕ}
    (hn : n < 2 ^ 64) (h : (contentLengthKey, decimal n) ∈ fields) :
    fields.contentLength = n := by
  have hne : (decimal n).isEmpty = false := by
    rw [List.isEmpty_eq_false_iff]
    exact decimal_ne_nil n
  simp [HttpFields.contentLength, find_of_mem hdistinct h, hne, extractUnsigned_decimal hn]

/-! ### The CORS fields -/

/-- The members of `http_config` that `set_options_header` reads. -/
structure HttpConfig where
  controlAllowOrigin : Bytes
  controlAllowMethods : Bytes
  controlAllowHeaders : Bytes
  controlMaxAge : Bytes
  controlAllowCredentials : Bool

/-- The configured texts have no line end in them. -/
structure HttpConfig.CrlfFree (cfg : HttpConfig) : Prop where
  origin : Aquarius.CrlfFree cfg.controlAllowOrigin
  methods : Aquarius.CrlfFree cfg.controlAllowMethods
  headers : Aquarius.CrlfFree cfg.controlAllowHeaders
  maxAge : Aquarius.CrlfFree cfg.controlMaxAge

/-- The names and values `set_options_header` sets, in its order. -/
def optionsFields (withCredential : Bool) (cfg : HttpConfig) : HttpFields :=
  [(textBytes "Access-Control-Allow-Origin", cfg.controlAllowOrigin),
   (textBytes "Access-Control-Request-Methods", cfg.controlAllowMethods),
   (textBytes "Access-Control-Allow-Headers", cfg.controlAllowHeaders),
   (textBytes "Access-Control-Max-Age", cfg.controlMaxAge)] ++
  if withCredential then
    [(textBytes "Access-Control-Allow-Credentials",
      textBytes (if cfg.controlAllowCredentials then "true" else "false"))]
  else []

/-- `set_options_header` -/
def setOptionsHeader (fields : HttpFields) (withCredential : Bool) (cfg : HttpConfig) :
    HttpFields :=
  (optionsFields withCredential cfg).foldl (fun fields f => fields.setField f.1 f.2) fields

/-- A name that can be written: there is no colon and no carriage return in it. -/
private def isFieldName (name : Bytes) : Bool := name.all fun b => b != 58 && b != 13

/-- What the check of a name says. -/
private theorem of_isFieldName {name : Bytes} (h : isFieldName name = true) :
    ∀ b ∈ name, b ≠ 58 ∧ b ≠ 13 := by
  intro b hb
  have hbyte := List.all_eq_true.mp h b hb
  simpa using hbyte

/-- The names of the CORS fields are free of colons and line ends, and none of them is that of
the length. -/
private theorem optionsFields_names {withCredential : Bool} {cfg : HttpConfig}
    {f : Bytes × Bytes} (hf : f ∈ optionsFields withCredential cfg) :
    (∀ b ∈ f.1, b ≠ 58 ∧ b ≠ 13) ∧ f.1 ≠ contentLengthKey := by
  simp only [optionsFields, List.mem_append, List.mem_cons, List.not_mem_nil, or_false] at hf
  rcases hf with (rfl | rfl | rfl | rfl) | hf
  · exact ⟨of_isFieldName rfl, by rintro ⟨⟩⟩
  · exact ⟨of_isFieldName rfl, by rintro ⟨⟩⟩
  · exact ⟨of_isFieldName rfl, by rintro ⟨⟩⟩
  · exact ⟨of_isFieldName rfl, by rintro ⟨⟩⟩
  · cases withCredential with
    | false => cases hf
    | true =>
        obtain rfl := List.mem_singleton.mp hf
        exact ⟨of_isFieldName rfl, by rintro ⟨⟩⟩

/-- The values of the CORS fields have no line end in them, if those configured have none. -/
private theorem optionsFields_values {withCredential : Bool} {cfg : HttpConfig}
    (hcfg : cfg.CrlfFree) {f : Bytes × Bytes} (hf : f ∈ optionsFields withCredential cfg) :
    CrlfFree f.2 := by
  simp only [optionsFields, List.mem_append, List.mem_cons, List.not_mem_nil, or_false] at hf
  rcases hf with (rfl | rfl | rfl | rfl) | hf
  · exact hcfg.origin
  · exact hcfg.methods
  · exact hcfg.headers
  · exact hcfg.maxAge
  · cases withCredential with
    | false => cases hf
    | true =>
        obtain rfl := List.mem_singleton.mp hf
        refine crlfFree_of_forall_ne ?_
        cases cfg.controlAllowCredentials with
        | false => simp [textBytes]
        | true => simp [textBytes]

/-- The CORS fields can be written: they are free of line ends, and their names of colons. -/
theorem crlfFree_optionsFields {withCredential : Bool} {cfg : HttpConfig} (hcfg : cfg.CrlfFree)
    {f : Bytes × Bytes} (hf : f ∈ optionsFields withCredential cfg) : FieldCrlfFree f := by
  obtain ⟨hname, -⟩ := optionsFields_names hf
  exact ⟨fun b hb => (hname b hb).1, crlfFree_of_forall_ne fun b hb => (hname b hb).2,
    optionsFields_values hcfg hf⟩

/-! ### The two directions -/

/-- `http_content_type` -/
def contentTypeKey : Bytes := textBytes "Content-Type"

/-- The fields `from_tcp_to_http` writes for a body of `bytes` bytes. -/
def httpFieldsFor (cfg : HttpConfig) (bytes : ℕ) : HttpFields :=
  let fields := HttpFields.setField [] contentTypeKey (textBytes "application/json")
  setOptionsHeader (fields.setField contentLengthKey (decimal bytes)) true cfg

/-- `convert::from_tcp_to_http`: the code it returns and the bytes it writes. -/
def fromTcpToHttp (cfg : HttpConfig) (enumerate : HttpFields → HttpFields) (input : Bytes) :
    Except Fault (ErrorCode × Bytes) :=
  match fromDatasZigZag 32 input with
  | .error e => .error e
  | .ok (ec, input) =>
      match TcpHeader.deserialize {} input with
      | (_, .error e) => .error e
      | (_, .ok input) =>
          .ok (httpStatus ec,
            HttpHeader.serialize (enumerate (httpFieldsFor cfg input.length)) ++ input)

/-- `convert::from_http_to_tcp`: the code it returns and the bytes it writes. The way is
`serialize_way::kv` for `GET`, and `serialize_way::json` otherwise. -/
def fromHttpToTcp (method : HttpMethod) (input : Bytes) : Except Fault (ErrorCode × Bytes) :=
  match HttpHeader.deserialize {} input with
  | (_, .error e) => .error e
  | (_, .ok input) =>
      let header : TcpHeader := { way := if method = .get then 2 else 1 }
      .ok ({}, header.serialize ++ input)

/-- Setting another field keeps a field. -/
private theorem mem_setField_of_ne {fields : HttpFields} {key v key' v' : Bytes}
    (h : (key, v) ∈ fields) (hne : key' ≠ key) : (key, v) ∈ fields.setField key' v' := by
  rw [HttpFields.setField]
  split
  · exact List.mem_map.mpr ⟨(key, v), h, if_neg hne.symm⟩
  · exact List.mem_append_left _ h

/-- What setting a list of fields keeps: distinct names, any property of the fields, and the
fields of other names. -/
private theorem setFields_keeps {P : Bytes × Bytes → Prop} (sets : HttpFields)
    (hsets : ∀ f ∈ sets, P f) {key v : Bytes} (hother : ∀ f ∈ sets, f.1 ≠ key) :
    ∀ fields : HttpFields, fields.Distinct → (∀ f ∈ fields, P f) → (key, v) ∈ fields →
      (sets.foldl (fun fields f => fields.setField f.1 f.2) fields).Distinct ∧
        (∀ f ∈ sets.foldl (fun fields f => fields.setField f.1 f.2) fields, P f) ∧
        (key, v) ∈ sets.foldl (fun fields f => fields.setField f.1 f.2) fields := by
  induction sets with
  | nil =>
      intro fields hdistinct hfields hmem
      exact ⟨hdistinct, hfields, hmem⟩
  | cons g sets ih =>
      intro fields hdistinct hfields hmem
      rw [List.foldl_cons]
      refine ih (fun f hf => hsets f (List.mem_cons_of_mem _ hf))
        (fun f hf => hother f (List.mem_cons_of_mem _ hf)) _ ?_ ?_ ?_
      · exact distinct_setField _ _ hdistinct
      · exact forall_setField hfields (hsets g (List.mem_cons_self ..))
      · exact mem_setField_of_ne hmem (hother g (List.mem_cons_self ..))

/-- The fields written for a body: distinct, free of line ends, and with its length. -/
private theorem httpFieldsFor_spec {cfg : HttpConfig} (hcfg : cfg.CrlfFree) (bytes : ℕ) :
    (httpFieldsFor cfg bytes).Distinct ∧ (∀ f ∈ httpFieldsFor cfg bytes, FieldCrlfFree f) ∧
      (contentLengthKey, decimal bytes) ∈ httpFieldsFor cfg bytes := by
  have hoptions : ∀ f ∈ optionsFields true cfg, FieldCrlfFree f := fun f hf =>
    crlfFree_optionsFields hcfg hf
  have htype : FieldCrlfFree (contentTypeKey, textBytes "application/json") := by
    refine ⟨?_, crlfFree_of_forall_ne ?_, crlfFree_of_forall_ne ?_⟩
    · simp [contentTypeKey, textBytes]
    · simp [contentTypeKey, textBytes]
    · simp [textBytes]
  have hnone : ∀ f ∈ ([] : HttpFields), FieldCrlfFree f := by simp
  rw [httpFieldsFor, setOptionsHeader]
  refine setFields_keeps _ hoptions (fun f hf => (optionsFields_names hf).2) _ ?_ ?_ ?_
  · exact distinct_setField _ _ (distinct_setField _ _ List.nodup_nil)
  · exact forall_setField (forall_setField hnone htype) (wellFormed_contentLength bytes).crlfFree
  · exact mem_setField_self.mpr rfl

/-- **The conversion preserves the body.** Towards TCP: for all fields that are free of line
ends and of colons in their names, in whatever order they are enumerated, every method and every
body, the output is a TCP header with the way of the method in front of the body. Towards HTTP:
for every result, TCP header and body, and any order of the fields, the output is a header whose
length is that of the body in front of the body. -/
theorem convert_preserves_body (cfg : HttpConfig) (hcfg : cfg.CrlfFree)
    (enumerate : HttpFields → HttpFields)
    (henumerate : ∀ fields, (enumerate fields).Perm fields) :
    (∀ (method : HttpMethod) (fields : HttpFields) (b : Bytes),
      (∀ f ∈ fields, FieldCrlfFree f) → fields.Distinct →
      ∃ output, fromHttpToTcp method (HttpHeader.serialize fields ++ b) = .ok ({}, output) ∧
        ∀ h₀ : TcpHeader, h₀.deserialize output =
          ({ uuid := 0, timestamp := 0, way := if method = .get then 2 else 1 }, .ok b)) ∧
    ∀ (result : BitVec 32) (header : TcpHeader) (b : Bytes), b.length ≤ maxSize →
      ∃ ec output fields,
        fromTcpToHttp cfg enumerate (toDatasZigZag result ++ (header.serialize ++ b)) =
          .ok (ec, output) ∧
        HttpHeader.deserialize {} output = ({ fields := fields }, .ok b) ∧
        fields.contentLength = b.length := by
  constructor
  · intro method fields b hfields hdistinct
    have hread := HttpHeader.deserialize_serialize_of_crlfFree hfields hdistinct b
    refine ⟨TcpHeader.serialize { way := if method = .get then 2 else 1 } ++ b, ?_, ?_⟩
    · rw [fromHttpToTcp, hread]
    · intro h₀
      exact TcpHeader.reads_deserialize _ h₀ b
  · intro result header b hb
    have hmax : maxSize = 2 ^ 63 - 1 := rfl
    have hresult : fromDatasZigZag 32 (toDatasZigZag result ++ (header.serialize ++ b)) =
        .ok (zigZagDecode 32 (zigZag result), header.serialize ++ b) :=
      reads_fromDatasZigZag result (header.serialize ++ b)
    obtain ⟨hdistinct, hfields, hmem⟩ := httpFieldsFor_spec hcfg b.length
    have hperm := henumerate (httpFieldsFor cfg b.length)
    have hdistinct' : (enumerate (httpFieldsFor cfg b.length)).Distinct :=
      (hperm.map Prod.fst).nodup_iff.mpr hdistinct
    refine ⟨httpStatus (zigZagDecode 32 (zigZag result)),
      HttpHeader.serialize (enumerate (httpFieldsFor cfg b.length)) ++ b,
      enumerate (httpFieldsFor cfg b.length), ?_, ?_, ?_⟩
    · rw [fromTcpToHttp, hresult]
      simp only [TcpHeader.reads_deserialize header {} b]
    · exact HttpHeader.deserialize_serialize_of_crlfFree
        (fun f hf => hfields f (hperm.mem_iff.mp hf)) hdistinct' b
    · exact contentLength_of_mem hdistinct' (by omega) (hperm.mem_iff.mpr hmem)

/-- A configuration with one origin. -/
def oneOrigin : HttpConfig where
  controlAllowOrigin := [42]
  controlAllowMethods := textBytes "GET,POST"
  controlAllowHeaders := []
  controlMaxAge := textBytes "600"
  controlAllowCredentials := true

/-- The body `"\r\n:"`, which looks like a header, is carried both ways. -/
theorem convert_preserves_crlf :
    (∃ output, fromHttpToTcp .get (HttpHeader.serialize [([88], [13])] ++ [13, 10, 58]) =
        .ok ({}, output) ∧
      ∀ h₀ : TcpHeader, h₀.deserialize output = ({ way := 2 }, .ok [13, 10, 58])) ∧
    ∃ ec output fields, fromTcpToHttp oneOrigin List.reverse
        (toDatasZigZag 200#32 ++ (TcpHeader.serialize { uuid := 7 } ++ [13, 10, 58])) =
          .ok (ec, output) ∧
      HttpHeader.deserialize {} output = ({ fields := fields }, .ok [13, 10, 58]) ∧
      fields.contentLength = 3 := by
  have hcfg : oneOrigin.CrlfFree := by
    refine ⟨?_, ?_, ?_, ?_⟩ <;> refine crlfFree_of_forall_ne ?_ <;> simp [oneOrigin, textBytes]
  have h := convert_preserves_body oneOrigin hcfg List.reverse List.reverse_perm
  constructor
  · refine h.1 .get [([88], [13])] [13, 10, 58] ?_ (by simp [HttpFields.Distinct])
    intro f hf
    obtain rfl := List.mem_singleton.mp hf
    refine ⟨by simp, crlfFree_of_forall_ne (by simp), ?_⟩
    rintro (_ | ⟨_, p⟩) q hq
    · simp at hq
    · simp at hq
  · exact h.2 200#32 { uuid := 7 } [13, 10, 58] (by simp [maxSize])

end Aquarius
