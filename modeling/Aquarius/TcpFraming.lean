import Aquarius.Library.ByteStream
import Aquarius.Binary

/-!
# TCP Framing

The frames of a `tcp` connection (`ip/tcp.hpp`). A frame is a `raw_header`, its object
representation as it lies in memory, followed by as many bytes as `length` says. Three
places send frames: `send_request`, `send_buffer` and the response lambda of `accept`. They
queue the header by address, so what goes out is what the header holds when `async_send`
runs; a `ConstBuffer.header` is such an entry, and `Outgoing.asyncSend` looks it up.

`recv` reads the header and then the payload with `async_read`, which delivers the requested
number of bytes however the stream is segmented, or fails at its end. Both sides use the
same byte order.

## Main results

* `Sending.bytes_eq`: the length on the wire is the number of bytes that follow, at every
  sender.
* `recv_frame`, `recv_incomplete`: what `recv` makes of a complete and of a cut frame.
* `recvLoop_wire`: **the stream re-synchronises**; every prefix of a stream of frames, in
  every segmentation, yields exactly the frames that are complete in it, and then an error.
-/

open Decoding

namespace Aquarius

/-! ### The raw header -/

/-- `tcp::raw_header` -/
structure RawHeader where
  length : BitVec 32 := 0
  src : BitVec 32 := 0
  deriving DecidableEq, Repr

/-- The object representation of a header, `sizeof(raw_header)` bytes. -/
def RawHeader.image (order : ByteOrder) (header : RawHeader) : Bytes :=
  order.image 4 header.length.toNat ++ order.image 4 header.src.toNat

/-- `consume_raw_header`: the bytes of the buffer are copied over the header. -/
def consumeRawHeader (order : ByteOrder) (buffer : Bytes) : RawHeader where
  length := BitVec.ofNat 32 (order.value (buffer.take 4))
  src := BitVec.ofNat 32 (order.value (buffer.drop 4))

@[simp] theorem RawHeader.length_image (order : ByteOrder) (header : RawHeader) :
    (header.image order).length = 8 := by
  rw [RawHeader.image, List.length_append, ByteOrder.length_image, ByteOrder.length_image]

/-- A 32-bit number is read back from its image. -/
private theorem ofNat_value_image (order : ByteOrder) (v : BitVec 32) :
    BitVec.ofNat 32 (order.value (order.image 4 v.toNat)) = v := by
  rw [ByteOrder.value_image order v.isLt, BitVec.ofNat_toNat, BitVec.setWidth_eq]

/-- The header survives the wire. -/
theorem consumeRawHeader_image (order : ByteOrder) (header : RawHeader) :
    consumeRawHeader order (header.image order) = header := by
  have hlen : (order.image 4 header.length.toNat).length = 4 := ByteOrder.length_image ..
  rw [consumeRawHeader, RawHeader.image, List.take_left' hlen, List.drop_left' hlen,
    ofNat_value_image, ofNat_value_image]

/-! ### The senders -/

/-- An entry of the `std::vector<asio::const_buffer>`: the address of the local header, or
bytes that are not touched until they are sent. -/
inductive ConstBuffer where
  | header
  | data (bytes : Bytes)

/-- The locals of a sender: the header and the queued buffers. -/
structure Outgoing where
  header : RawHeader := {}
  buffers : List ConstBuffer := []

namespace Outgoing

/-- `header.length += static_cast<uint32_t>(size)` -/
def addLength (o : Outgoing) (size : ℕ) : Outgoing :=
  { o with header := { o.header with length := o.header.length + BitVec.ofNat 32 size } }

/-- `commit_raw_header` -/
def commitRawHeader (o : Outgoing) : Outgoing :=
  { o with buffers := o.buffers ++ [.header] }

/-- `buffers.push_back(buffer.data())` -/
def pushBack (o : Outgoing) (buffer : Bytes) : Outgoing :=
  { o with buffers := o.buffers ++ [.data buffer] }

/-- The bytes `session_ptr_->async_send(buffers)` writes: the buffers in order, the header as
it is now. -/
def asyncSend (order : ByteOrder) (o : Outgoing) : Bytes :=
  o.buffers.flatMap fun
    | .header => o.header.image order
    | .data bytes => bytes

end Outgoing

/-- `send_request`, from the buffer that `request->commit` filled. -/
def sendRequest (src : BitVec 32) (buffer : Bytes) : Outgoing :=
  let o : Outgoing := { header := { length := BitVec.ofNat 32 buffer.length, src := src } }
  o.commitRawHeader.pushBack buffer

/-- `send_buffer` -/
def sendBuffer (src : BitVec 32) (req router : Bytes) : Outgoing :=
  let o : Outgoing := { header := { length := BitVec.ofNat 32 req.length, src := src } }
  if router.isEmpty then o.commitRawHeader.pushBack req
  else
    let routerBuffer := toDatasString router
    (((o.addLength routerBuffer.length).commitRawHeader).pushBack routerBuffer).pushBack req

/-- The response lambda of `accept`: the router is added to the length after the header was
queued. -/
def respond (src : BitVec 32) (buffer r : Bytes) : Outgoing :=
  let o : Outgoing := { header := { length := BitVec.ofNat 32 buffer.length, src := src } }
  let o := o.commitRawHeader
  if r.isEmpty then o.pushBack buffer
  else
    let tmp := toDatasString r
    ((o.pushBack tmp).addLength tmp.length).pushBack buffer

/-- One frame sent on a connection, by one of the three senders. -/
inductive Sending where
  | byRequest (src : BitVec 32) (buffer : Bytes)
  | byBuffer (src : BitVec 32) (req router : Bytes)
  | byResponse (src : BitVec 32) (buffer r : Bytes)

namespace Sending

/-- What the sender builds. -/
def outgoing : Sending → Outgoing
  | byRequest src buffer => sendRequest src buffer
  | byBuffer src req router => sendBuffer src req router
  | byResponse src buffer r => respond src buffer r

/-- The `src` of the frame. -/
def src : Sending → BitVec 32
  | byRequest src _ | byBuffer src _ _ | byResponse src _ _ => src

/-- The router in front of a payload, left out when empty. -/
def routerBytes (router : Bytes) : Bytes :=
  if router.isEmpty then [] else toDatasString router

/-- The payload of the frame: the router, if there is one, and the buffer. -/
def payload : Sending → Bytes
  | byRequest _ buffer => buffer
  | byBuffer _ req router => routerBytes router ++ req
  | byResponse _ buffer r => routerBytes r ++ buffer

/-- The bytes of the frame on the wire. -/
def bytes (order : ByteOrder) (s : Sending) : Bytes := s.outgoing.asyncSend order

/-- The header a frame has to have. -/
def header (s : Sending) : RawHeader where
  length := BitVec.ofNat 32 s.payload.length
  src := s.src

/-- **Every sender announces what it sends**: the frame is the image of a header whose
length is the size of the payload, followed by the payload. -/
theorem bytes_eq (order : ByteOrder) (s : Sending) :
    s.bytes order = s.header.image order ++ s.payload := by
  cases s with
  | byRequest src buffer =>
      simp [bytes, outgoing, sendRequest, Outgoing.asyncSend, Outgoing.commitRawHeader,
        Outgoing.pushBack, header, payload, Sending.src]
  | byBuffer src req router =>
      by_cases hrouter : router.isEmpty
      · simp [bytes, outgoing, sendBuffer, Outgoing.asyncSend, Outgoing.commitRawHeader,
          Outgoing.pushBack, header, payload, Sending.src, routerBytes, hrouter]
      · simp [bytes, outgoing, sendBuffer, Outgoing.asyncSend, Outgoing.commitRawHeader,
          Outgoing.pushBack, Outgoing.addLength, header, payload, Sending.src, routerBytes,
          hrouter, BitVec.ofNat_add, BitVec.add_comm]
  | byResponse src buffer r =>
      by_cases hrouter : r.isEmpty
      · simp [bytes, outgoing, respond, Outgoing.asyncSend, Outgoing.commitRawHeader,
          Outgoing.pushBack, header, payload, Sending.src, routerBytes, hrouter]
      · simp [bytes, outgoing, respond, Outgoing.asyncSend, Outgoing.commitRawHeader,
          Outgoing.pushBack, Outgoing.addLength, header, payload, Sending.src, routerBytes,
          hrouter, BitVec.ofNat_add, BitVec.add_comm]

/-- The size of a frame on the wire. -/
theorem length_bytes (order : ByteOrder) (s : Sending) :
    (s.bytes order).length = 8 + s.payload.length := by
  rw [bytes_eq, List.length_append, RawHeader.length_image]

/-- The sizes a frame can have: not empty, and its length fits the header. -/
def Sized (s : Sending) : Prop := 1 ≤ s.payload.length ∧ s.payload.length < 2 ^ 32

end Sending

/-! ### The receiver -/

/-- `recv`: the source and payload of the next frame, with the stream behind it. `none` is
the error code `asio::error::eof`, which `async_read` gives at the end of the stream and
`recv` itself for a frame of length zero. -/
def recv (order : ByteOrder) (stream : List Bytes) :
    Option ((BitVec 32 × Bytes) × List Bytes) :=
  match readExact stream 8 with
  | none => none
  | some (buffer, stream) =>
      let header := consumeRawHeader order buffer
      if header.length = 0 then none
      else
        match readExact stream header.length.toNat with
        | none => none
        | some (buffer, stream) => some ((header.src, buffer), stream)

/-- The loop of `accept` and `query` over `recv`: the frames received in at most `fuel`
rounds, and whether `recv` has failed by then. -/
def recvLoop (order : ByteOrder) : ℕ → List Bytes → List (BitVec 32 × Bytes) × Bool
  | 0, _ => ([], false)
  | fuel + 1, stream =>
      match recv order stream with
      | none => ([], true)
      | some (frame, stream) =>
          let rest := recvLoop order fuel stream
          (frame :: rest.1, rest.2)

section Recv

variable {order : ByteOrder} {s : Sending} {stream : List Bytes}

/-- The announced length is the size of the payload. -/
private theorem toNat_header_length (hs : s.Sized) :
    s.header.length.toNat = s.payload.length := by
  rw [Sending.header, BitVec.toNat_ofNat, Nat.mod_eq_of_lt hs.2]

/-- A frame of admissible size does not announce an empty payload. -/
private theorem header_length_ne_zero (hs : s.Sized) : s.header.length ≠ 0 := by
  intro hzero
  have hlen := toNat_header_length hs
  have hpos := hs.1
  rw [hzero] at hlen
  simp only [BitVec.ofNat_eq_ofNat, BitVec.toNat_ofNat, Nat.zero_mod] at hlen
  omega

/-- **A complete frame** at the front of the stream is received as it was sent. -/
theorem recv_frame (hs : s.Sized) {t : Bytes} (h : stream.flatten = s.bytes order ++ t) :
    ∃ rest, recv order stream = some ((s.src, s.payload), rest) ∧ rest.flatten = t := by
  rw [Sending.bytes_eq, List.append_assoc] at h
  obtain ⟨rest, hheader, hrest⟩ := readExact_append h
  obtain ⟨rest', hpayload, hrest'⟩ := readExact_append hrest
  rw [RawHeader.length_image] at hheader
  refine ⟨rest', ?_, hrest'⟩
  rw [recv, hheader]
  simp only [consumeRawHeader_image, header_length_ne_zero hs, if_false,
    toNat_header_length hs, hpayload]
  rfl

/-- **A cut frame** is not received: `recv` fails on every proper prefix of a frame. -/
theorem recv_incomplete (hs : s.Sized) (hpre : stream.flatten <+: s.bytes order)
    (hlt : stream.flatten.length < (s.bytes order).length) : recv order stream = none := by
  by_cases hshort : stream.flatten.length < 8
  · rw [recv, readExact_eq_none_iff.mpr hshort]
  · -- the header is complete, so the payload is what was cut
    rw [Sending.length_bytes] at hlt
    rw [Sending.bytes_eq] at hpre
    have hle : (s.header.image order).length ≤ stream.flatten.length := by
      rw [RawHeader.length_image]
      omega
    obtain ⟨t, ht⟩ := List.prefix_of_prefix_length_le (List.prefix_append _ _) hpre hle
    obtain ⟨rest, hheader, hrest⟩ := readExact_append ht.symm
    rw [RawHeader.length_image] at hheader
    have hcut : rest.flatten.length < s.header.length.toNat := by
      rw [toNat_header_length hs, hrest]
      have hlen := congrArg List.length ht
      rw [List.length_append, RawHeader.length_image] at hlen
      omega
    rw [recv, hheader]
    simp only [consumeRawHeader_image, header_length_ne_zero hs, if_false,
      readExact_eq_none_iff.mpr hcut]

end Recv

/-! ### The stream -/

/-- The byte stream of frames sent one after another. -/
def wire (order : ByteOrder) (sends : List Sending) : Bytes :=
  sends.flatMap (Sending.bytes order)

/-- What the receiver should see of the frames. -/
def received (sends : List Sending) : List (BitVec 32 × Bytes) :=
  sends.map fun s => (s.src, s.payload)

/-- `k` is the number of frames complete in the prefix `p` of the stream. -/
def CompleteIn (order : ByteOrder) (sends : List Sending) (p : Bytes) (k : ℕ) : Prop :=
  k ≤ sends.length ∧ wire order (sends.take k) <+: p ∧
    ∀ j ≤ sends.length, wire order (sends.take j) <+: p → j ≤ k

/-- Behind a complete frame, the prefix goes on with the other frames. -/
private theorem CompleteIn.cons {order : ByteOrder} {sends : List Sending} {t : Bytes} {k : ℕ}
    (h : CompleteIn order sends t k) (s : Sending) :
    CompleteIn order (s :: sends) (s.bytes order ++ t) (k + 1) := by
  obtain ⟨hk, hpre, hmax⟩ := h
  have hwire : ∀ j, wire order ((s :: sends).take (j + 1)) <+: s.bytes order ++ t ↔
      wire order (sends.take j) <+: t := by
    intro j
    rw [List.take_succ_cons, wire, List.flatMap_cons]
    exact List.prefix_append_right_inj _
  refine ⟨Nat.succ_le_succ hk, (hwire k).mpr hpre, ?_⟩
  intro j hj hjpre
  cases j with
  | zero => exact Nat.zero_le _
  | succ j => exact Nat.succ_le_succ (hmax j (Nat.le_of_succ_le_succ hj) ((hwire j).mp hjpre))

/-- In a prefix shorter than the first frame, nothing is complete. -/
private theorem completeIn_zero {order : ByteOrder} {s : Sending} {p : Bytes}
    (sends : List Sending) (hlt : p.length < (s.bytes order).length) :
    CompleteIn order (s :: sends) p 0 := by
  refine ⟨Nat.zero_le _, List.nil_prefix, ?_⟩
  intro j _ hjpre
  cases j with
  | zero => exact Nat.le_refl 0
  | succ j =>
      rw [List.take_succ_cons, wire, List.flatMap_cons] at hjpre
      have hlen := hjpre.length_le
      rw [List.length_append] at hlen
      omega

/-- Every prefix of a stream is received up to its last complete frame, by induction over
the frames: the first one is either complete, and the prefix goes on behind it, or cut, and
nothing is complete. -/
private theorem recvLoop_of_prefix (order : ByteOrder) (sends : List Sending)
    (hsized : ∀ s ∈ sends, s.Sized) (stream : List Bytes)
    (hpre : stream.flatten <+: wire order sends) (fuel : ℕ) (hfuel : sends.length < fuel) :
    ∃ k, CompleteIn order sends stream.flatten k ∧
      recvLoop order fuel stream = (received (sends.take k), true) := by
  induction sends generalizing stream fuel with
  | nil =>
      obtain ⟨fuel, rfl⟩ := Nat.exists_eq_succ_of_ne_zero (Nat.ne_zero_of_lt hfuel)
      have hempty : stream.flatten.length < 8 := by
        rw [List.prefix_nil.mp hpre]
        exact Nat.zero_lt_succ 7
      refine ⟨0, ⟨Nat.le_refl 0, List.nil_prefix, fun j hj _ => hj⟩, ?_⟩
      rw [recvLoop, recv, readExact_eq_none_iff.mpr hempty]
      rfl
  | cons s sends ih =>
      obtain ⟨fuel, rfl⟩ := Nat.exists_eq_succ_of_ne_zero (Nat.ne_zero_of_lt hfuel)
      have hs : s.Sized := hsized s (List.mem_cons_self ..)
      rw [wire, List.flatMap_cons] at hpre
      rcases Nat.lt_or_ge stream.flatten.length (s.bytes order).length with hlt | hle
      · have hcut : stream.flatten <+: s.bytes order :=
          List.prefix_of_prefix_length_le hpre (List.prefix_append _ _) (Nat.le_of_lt hlt)
        refine ⟨0, completeIn_zero sends hlt, ?_⟩
        rw [recvLoop, recv_incomplete hs hcut hlt]
        rfl
      · obtain ⟨t, ht⟩ := List.prefix_of_prefix_length_le (List.prefix_append _ _) hpre hle
        obtain ⟨rest, hrecv, hrest⟩ := recv_frame hs ht.symm
        have hpre' : rest.flatten <+: wire order sends := by
          rw [hrest]
          rw [← ht] at hpre
          exact (List.prefix_append_right_inj _).mp hpre
        obtain ⟨k, hk, hloop⟩ := ih (fun s' hs' => hsized s' (List.mem_cons_of_mem _ hs')) rest
          hpre' fuel (Nat.lt_of_succ_lt_succ hfuel)
        refine ⟨k + 1, ?_, ?_⟩
        · rw [← ht, ← hrest]
          exact hk.cons s
        · rw [recvLoop, hrecv]
          simp only [hloop]
          rfl

/-- **TCP stream framing.** For frames of admissible sizes sent one after another, by any of
the senders, `recv` in a loop yields exactly their sources and payloads in order from the
whole stream, and from every prefix of it exactly those that are complete there and then an
error, whatever the segmentation. -/
theorem recvLoop_wire (order : ByteOrder) (sends : List Sending)
    (hsized : ∀ s ∈ sends, s.Sized) (fuel : ℕ) (hfuel : sends.length < fuel) :
    (∀ stream : List Bytes, stream.flatten = wire order sends →
      recvLoop order fuel stream = (received sends, true)) ∧
    (∀ stream : List Bytes, stream.flatten <+: wire order sends →
      ∃ k, CompleteIn order sends stream.flatten k ∧
        recvLoop order fuel stream = (received (sends.take k), true)) := by
  refine ⟨fun stream hstream => ?_, fun stream hpre =>
    recvLoop_of_prefix order sends hsized stream hpre fuel hfuel⟩
  obtain ⟨k, ⟨-, -, hmax⟩, hloop⟩ := recvLoop_of_prefix order sends hsized stream
    (hstream ▸ List.prefix_refl _) fuel hfuel
  -- all frames are complete in the whole stream
  have hall : sends.length ≤ k := by
    refine hmax sends.length (Nat.le_refl _) ?_
    rw [List.take_length]
    exact hstream ▸ List.prefix_refl _
  rw [hloop, List.take_of_length_le hall]

/-- A request and a response with a router. -/
def twoSendings : List Sending := [.byRequest 7 [1, 2], .byResponse 9 [3] [97]]

/-- The two frames are received from a stream cut inside the second header. -/
theorem recvLoop_wire_twoSendings :
    recvLoop .big 3 [(wire .big twoSendings).take 11, (wire .big twoSendings).drop 11] =
      (received twoSendings, true) := by
  have hsized : ∀ s ∈ twoSendings, s.Sized := by
    intro s hs
    rcases List.mem_pair.mp hs with rfl | rfl
    · exact ⟨by decide, by decide⟩
    · have hpayload : (Sending.byResponse 9 [3] [97]).payload = [1, 97, 3] := by
        rw [Sending.payload, Sending.routerBytes, if_neg (by decide),
          toDatasString_of_lt (by decide)]
        rfl
      rw [Sending.Sized, hpayload]
      exact ⟨by decide, by decide⟩
  refine (recvLoop_wire .big twoSendings hsized 3 (by decide)).1 _ ?_
  rw [List.flatten_cons, List.flatten_cons, List.flatten_nil, List.append_nil,
    List.take_append_drop]

end Aquarius
