import Aquarius.Serialization

/-!
# TCP Messages

`tcp_header` (`virgo/tcp_header.hpp`) and the two specialisations of `basic_tcp_protocol`
(`virgo/basic_tcp_protocol.hpp`), over any body that implements the `serialization`
interface. `consume` catches every exception and turns it into `ip::error::consume`
(`errorCode`), so a partly assigned message is an ordinary outcome.

## Main results

* `TcpHeader.reads_deserialize`: a serialized header is read back from any earlier state.
* `consume_commit`: **the message round trip**, for requests and responses. A response
  carries its result in front of the header as an `int32_t`; the value that arrives is the
  decoded zig-zag image, and the message behind it is intact whatever the value is.
-/

open Decoding

namespace Aquarius

/-- `ip::error` -/
inductive ProtoError where
  | success
  | commit
  | consume
  deriving DecidableEq, Repr

/-- The `error_code` a `consume` method returns for the way its `try` block ended. -/
def errorCode : Except Fault Bytes → ProtoError
  | .ok _ => .success
  | .error _ => .consume

/-! ### The header -/

/-- The members of `tcp_header`, with their defaults. -/
structure TcpHeader where
  uuid : BitVec 64 := 0
  timestamp : BitVec 64 := 0
  way : BitVec 16 := 0
  deriving DecidableEq, Repr

/-- `tcp_header::serialize` -/
def TcpHeader.serialize (h : TcpHeader) : Bytes :=
  toDatasInteger h.uuid ++ (toDatasZigZag h.timestamp ++ toDatasZigZag h.way)

/-- `tcp_header::deserialize`: each member is assigned as soon as it is read. -/
def TcpHeader.deserialize : Reading TcpHeader := fun h buffer =>
  match fromDatasInteger 64 buffer with
  | .error e => (h, .error e)
  | .ok (uuid, buffer) =>
      match fromDatasZigZag 64 buffer with
      | .error e => ({ h with uuid := uuid }, .error e)
      | .ok (timestamp, buffer) =>
          match fromDatasZigZag 16 buffer with
          | .error e => ({ h with uuid := uuid, timestamp := timestamp }, .error e)
          | .ok (way, buffer) => (⟨uuid, timestamp, way⟩, .ok buffer)

/-- A serialized header is read back, whatever the header held before. -/
theorem TcpHeader.reads_deserialize (h h₀ : TcpHeader) (s : Bytes) :
    h₀.deserialize (h.serialize ++ s) = (h, .ok s) := by
  have huuid := reads_fromDatasInteger (by omega) h.uuid
  have htimestamp := reads_fromDatasZigZag_self (by omega) (by omega) h.timestamp
  have hway := reads_fromDatasZigZag_self (by omega) (by omega) h.way
  simp only [Reads, StateT.run] at huuid htimestamp hway
  simp only [TcpHeader.deserialize, TcpHeader.serialize, List.append_assoc, huuid,
    htimestamp, hway]

/-! ### The body, by the way in the header -/

/-- The `switch` of the `commit` methods. -/
def writeBody {B : Type} (ser : Serialization B) (way : BitVec 16) (body : B) :
    Bytes × Option Fault :=
  match SerializeWay.ofWay way with
  | some .binary => ser.toBinary body
  | some .json => ser.toJson body
  | some .kv => ser.toKv body
  | none => ([], none)

/-- The `switch` of the `consume` methods. -/
def readBody {B : Type} (ser : Serialization B) (way : BitVec 16) : Reading B :=
  match SerializeWay.ofWay way with
  | some .binary => ser.fromBinary
  | some .json => ser.fromJson
  | some .kv => ser.fromKv
  | none => fun body buffer => (body, .ok buffer)

/-- The `error_code` a `commit` method returns for the way its body ended. -/
def commitError : Option Fault → ProtoError
  | none => .success
  | some _ => .commit

/-! ### Requests -/

/-- `basic_tcp_protocol<true, Router, tcp_header, Body>` -/
structure TcpRequest (B : Type) where
  header : TcpHeader
  body : B

namespace TcpRequest

variable {B : Type}

/-- A default-constructed request. -/
def create (ser : Serialization B) : TcpRequest B := ⟨{}, ser.create⟩

/-- `commit` of a request: router, header, body. -/
def commit (router : StdString) (ser : Serialization B) (m : TcpRequest B) :
    Bytes × ProtoError :=
  let body := writeBody ser m.header.way m.body
  (toDatasString router.val ++ (m.header.serialize ++ body.1), commitError body.2)

/-- The `try` block of `consume` of a request. -/
def consume (ser : Serialization B) : Reading (TcpRequest B) := fun m buffer =>
  match m.header.deserialize buffer with
  | (header, .error e) => (⟨header, m.body⟩, .error e)
  | (header, .ok buffer) =>
      let body := readBody ser header.way m.body buffer
      (⟨header, body.1⟩, body.2)

end TcpRequest

/-! ### Responses -/

/-- `basic_tcp_protocol<false, Router, tcp_header, Body>` -/
structure TcpResponse (B : Type) where
  result : BitVec 32
  header : TcpHeader
  body : B

namespace TcpResponse

variable {B : Type}

/-- A default-constructed response. -/
def create (ser : Serialization B) : TcpResponse B := ⟨0, {}, ser.create⟩

/-- `commit` of a response: router, result, header, body. -/
def commit (router : StdString) (ser : Serialization B) (m : TcpResponse B) :
    Bytes × ProtoError :=
  let body := writeBody ser m.header.way m.body
  (toDatasString router.val ++
    (toDatasZigZag m.result ++ (m.header.serialize ++ body.1)), commitError body.2)

/-- The `try` block of `consume` of a response. -/
def consume (ser : Serialization B) : Reading (TcpResponse B) := fun m buffer =>
  match fromDatasZigZag 32 buffer with
  | .error e => (m, .error e)
  | .ok (result, buffer) =>
      match m.header.deserialize buffer with
      | (header, .error e) => (⟨result, header, m.body⟩, .error e)
      | (header, .ok buffer) =>
          let body := readBody ser header.way m.body buffer
          (⟨result, header, body.1⟩, body.2)

end TcpResponse

/-! ### The message round trip -/

section RoundTrip

variable {B : Type} {ser : Serialization B} {header : TcpHeader} {body : B}

/-- With `way = binary`, the binary methods write the body. -/
private theorem writeBody_binary (ser : Serialization B) (hway : header.way = 0) (body : B) :
    writeBody ser header.way body = ser.toBinary body := by
  rw [hway]
  rfl

/-- With `way = binary`, the binary methods read the body back. -/
private theorem readBody_binary (hway : header.way = 0) (hbody : ser.BinaryFramed body)
    (body₀ : B) (s : Bytes) :
    readBody ser header.way body₀ ((ser.toBinary body).1 ++ s) = (body, .ok s) := by
  rw [hway]
  exact hbody.2 body₀ s

/-- The message behind the router of a committed request is read back. -/
theorem TcpRequest.consume_serialize (hway : header.way = 0) (hbody : ser.BinaryFramed body)
    (m₀ : TcpRequest B) (s : Bytes) :
    m₀.consume ser (header.serialize ++ ((ser.toBinary body).1 ++ s)) =
      (⟨header, body⟩, .ok s) := by
  simp only [TcpRequest.consume, TcpHeader.reads_deserialize, readBody_binary hway hbody]

/-- The message behind the router of a committed response is read back; its result is what
the zig-zag image of the sender's result decodes to. -/
theorem TcpResponse.consume_serialize (hway : header.way = 0)
    (hbody : ser.BinaryFramed body) (result : BitVec 32) (m₀ : TcpResponse B) (s : Bytes) :
    m₀.consume ser
        (toDatasZigZag result ++ (header.serialize ++ ((ser.toBinary body).1 ++ s))) =
      (⟨zigZagDecode 32 (zigZag result), header, body⟩, .ok s) := by
  have hresult := reads_fromDatasZigZag result
  simp only [Reads, StateT.run] at hresult
  simp only [TcpResponse.consume, hresult, TcpHeader.reads_deserialize,
    readBody_binary hway hbody]

end RoundTrip

/-- **The TCP message round trip.** The bytes `commit` writes for a message with a binary
body, followed by any bytes `s`, give the router to `from_datas<std::string>` and then, to
`consume` on any message of the same type, the header and body that were sent; no error is
reported and `s` is left. A response keeps this for every result value. -/
theorem consume_commit {B : Type} (ser : Serialization B) (router : StdString)
    (header : TcpHeader) (hway : header.way = 0) (body : B) (hbody : ser.BinaryFramed body)
    (result : BitVec 32) (s : Bytes) :
    (∀ m₀ : TcpRequest B,
      (TcpRequest.commit router ser ⟨header, body⟩).2 = .success ∧
      ∃ buffer,
        fromDatasString.run ((TcpRequest.commit router ser ⟨header, body⟩).1 ++ s) =
          .ok (router.val, buffer) ∧
        m₀.consume ser buffer = (⟨header, body⟩, .ok s) ∧
        errorCode (m₀.consume ser buffer).2 = .success) ∧
    (∀ m₀ : TcpResponse B,
      (TcpResponse.commit router ser ⟨result, header, body⟩).2 = .success ∧
      ∃ buffer,
        fromDatasString.run ((TcpResponse.commit router ser ⟨result, header, body⟩).1 ++ s) =
          .ok (router.val, buffer) ∧
        m₀.consume ser buffer =
          (⟨zigZagDecode 32 (zigZag result), header, body⟩, .ok s) ∧
        errorCode (m₀.consume ser buffer).2 = .success) := by
  have hrouter := reads_fromDatasString router.size_le
  have hwrite := writeBody_binary ser hway body
  constructor
  · intro m₀
    refine ⟨?_, header.serialize ++ ((ser.toBinary body).1 ++ s), ?_, ?_⟩
    · simp only [TcpRequest.commit, hwrite, hbody.1, commitError]
    · simp only [TcpRequest.commit, hwrite, List.append_assoc]
      exact hrouter _
    · rw [TcpRequest.consume_serialize hway hbody]
      exact ⟨rfl, rfl⟩
  · intro m₀
    refine ⟨?_, toDatasZigZag result ++ (header.serialize ++ ((ser.toBinary body).1 ++ s)),
      ?_, ?_⟩
    · simp only [TcpResponse.commit, hwrite, hbody.1, commitError]
    · simp only [TcpResponse.commit, hwrite, List.append_assoc]
      exact hrouter _
    · rw [TcpResponse.consume_serialize hway hbody]
      exact ⟨rfl, rfl⟩

/-- The generated body with the one field `uint32 id`. -/
def idSerialization : Serialization (Body [([105, 100], .uint32)]) :=
  Generated.serialization .little (stdLess fun _ _ _ => false) numberJson _

/-- A response on the router `/id` with result `-1`. -/
def idResponse : TcpResponse (Body [([105, 100], .uint32)]) :=
  ⟨-1, ⟨7, 9, 0⟩, (300#32, ())⟩

/-- The round trip of the sample response, with a byte behind it. -/
theorem consume_commit_idResponse :
    ∃ buffer,
      fromDatasString.run
          ((TcpResponse.commit ⟨[47, 105, 100], by decide⟩ idSerialization idResponse).1 ++ [1]) =
        .ok ([47, 105, 100], buffer) ∧
      (TcpResponse.create idSerialization).consume idSerialization buffer =
        (⟨zigZagDecode 32 (zigZag idResponse.result), idResponse.header, idResponse.body⟩,
          .ok [1]) := by
  have hframed : idSerialization.BinaryFramed idResponse.body :=
    Generated.binaryFramed .little _ numberJson _ _ ⟨trivial, trivial⟩
  obtain ⟨-, hresponse⟩ := consume_commit idSerialization ⟨[47, 105, 100], by decide⟩
    idResponse.header rfl idResponse.body hframed idResponse.result [1]
  obtain ⟨-, buffer, hrouter, hconsume, -⟩ := hresponse (TcpResponse.create idSerialization)
  exact ⟨buffer, hrouter, hconsume⟩

end Aquarius
