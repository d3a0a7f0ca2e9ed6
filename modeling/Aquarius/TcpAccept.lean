import Aquarius.HttpAccept
import Aquarius.TcpFraming
import Aquarius.TcpProtocol

/-!
# The TCP Accept Loop

`tcp::accept` (`ip/tcp.hpp`) receives frames until `recv` fails. Each payload starts with the
router, which `from_datas<std::string>` reads outside of any `try` block; a router that is not
registered for `tcp` is passed over, and for the others `do_complete` (`basic_context.hpp`)
reads the rest of the payload into the handler's request and spawns its `handle_request`,
detached. What `consume` throws is caught in `consume`, and what a detached coroutine throws
never comes back to the loop.

So the only way out of the loop, other than the error code of `recv`, is the router: a length
prefix that does not end within the payload, that announces more than a string can hold, or
more than there is memory for.

## Main results

* `tcpAccept_of_wire`: the loop over the frames on the wire, however they are cut.
* `survives_iff`: **the loop survives** exactly when it can read the router of every frame.
* `not_survives_cut`: a payload of one byte ends the loop by an exception.
-/

open Decoding

namespace Aquarius

/-! ### One frame -/

/-- What `mpc_get_context` and the cast behind it find for a router. -/
inductive TcpContextKind where
  | missing
  /-- a context of another protocol -/
  | foreign
  | tcp
  deriving DecidableEq, Repr

/-- What `accept` takes from elsewhere: the registered contexts, how the `try` block of
`consume` ends in the handler of a router, and which sizes there is memory for. -/
structure TcpServer where
  contexts : Bytes → TcpContextKind
  consume : Bytes → Bytes → Except Fault Bytes
  allocates : ℕ → Bool

/-- What is handed to a context. -/
structure TcpDispatch where
  src : BitVec 32
  router : Bytes
  buffer : Bytes
  deriving DecidableEq, Repr

/-- The body of the `for (;;)` of `accept` for a frame: the loop is left, or goes on having
dispatched at most one request. -/
def tcpTurn (server : TcpServer) (src : BitVec 32) (payload : Bytes) :
    Except Ending (Option TcpDispatch) :=
  match fromDatasString.run payload with
  | .error .undefined => .error .undefined
  | .error _ => .error .thrown
  | .ok (router, buffer) =>
      -- `value.resize(size)` throws `std::bad_alloc`
      if server.allocates router.length = false then .error .thrown
      else
        match server.contexts router with
        | .missing | .foreign => .ok none
        | .tcp =>
            match server.consume router buffer with
            | .error .undefined => .error .undefined
            | _ => .ok (some ⟨src, router, buffer⟩)

/-! ### The loop -/

/-- What a run of `accept` has dispatched, and how it ended. -/
structure TcpAccepted where
  dispatched : List TcpDispatch
  ending : Ending

/-- `recv` takes bytes off the stream. -/
theorem recv_length {order : ByteOrder} {stream rest : List Bytes} {frame : BitVec 32 × Bytes}
    (h : recv order stream = some (frame, rest)) :
    rest.flatten.length < stream.flatten.length := by
  rw [recv] at h
  split at h
  · cases h
  · rename_i header middle hheader
    obtain ⟨-, hmiddle⟩ := readExact_eq_some hheader
    have hlong : ¬stream.flatten.length < 8 := fun hshort => by
      rw [readExact_eq_none_iff.mpr hshort] at hheader
      cases hheader
    simp only at h
    split at h
    · cases h
    · split at h
      · cases h
      · rename_i payload rest' hpayload
        obtain ⟨-, hrest⟩ := readExact_eq_some hpayload
        obtain ⟨-, rfl⟩ := Prod.mk.inj (Option.some.inj h)
        rw [hrest, hmiddle, List.length_drop, List.length_drop]
        omega

/-- `tcp::accept` on the bytes of a connection. -/
def tcpAccept (order : ByteOrder) (server : TcpServer) (stream : List Bytes) : TcpAccepted :=
  match _h : recv order stream with
  | none => ⟨[], .closed⟩
  | some ((src, payload), rest) =>
      match tcpTurn server src payload with
      | .error ending => ⟨[], ending⟩
      | .ok dispatched =>
          let later := tcpAccept order server rest
          ⟨dispatched.toList ++ later.dispatched, later.ending⟩
termination_by stream.flatten.length
decreasing_by exact recv_length _h

/-- The loop over frames that have been received. -/
def acceptFrames (server : TcpServer) : List (BitVec 32 × Bytes) → TcpAccepted
  | [] => ⟨[], .closed⟩
  | (src, payload) :: frames =>
      match tcpTurn server src payload with
      | .error ending => ⟨[], ending⟩
      | .ok dispatched =>
          let later := acceptFrames server frames
          ⟨dispatched.toList ++ later.dispatched, later.ending⟩

/-- A frame with a payload that is not empty and whose length the header can hold. -/
structure TcpFrame where
  src : BitVec 32
  payload : Bytes
  sized : 1 ≤ payload.length ∧ payload.length < 2 ^ 32

/-- The frame on the wire. -/
def TcpFrame.bytes (order : ByteOrder) (f : TcpFrame) : Bytes :=
  (Sending.byRequest f.src f.payload).bytes order

/-- **The loop over a stream**: it takes the frames one after the other, however the stream is
cut, and ends when they are used up. -/
theorem tcpAccept_of_wire (order : ByteOrder) (server : TcpServer) (frames : List TcpFrame)
    (stream : List Bytes) (hwire : stream.flatten = frames.flatMap (TcpFrame.bytes order)) :
    tcpAccept order server stream =
      acceptFrames server (frames.map fun f => (f.src, f.payload)) := by
  induction frames generalizing stream with
  | nil =>
      have hnone : recv order stream = none := by
        rw [recv, readExact_eq_none_iff.mpr (by rw [hwire]; exact Nat.succ_pos 7)]
      rw [tcpAccept]
      split
      · rfl
      · rename_i hsome
        rw [hnone] at hsome
        cases hsome
  | cons f frames ih =>
      obtain ⟨rest, hrecv, hrest⟩ :=
        recv_frame (s := .byRequest f.src f.payload) f.sized hwire
      rw [tcpAccept]
      split
      · rename_i hnone
        rw [hrecv] at hnone
        cases hnone
      · rename_i src payload rest' hsome
        rw [hrecv] at hsome
        obtain ⟨⟨rfl, rfl⟩, rfl⟩ := Prod.mk.inj (Option.some.inj hsome)
        rw [ih rest hrest]
        rfl

/-! ### Surviving -/

/-- What should come of a frame: it is dispatched when its router can be decoded and is
registered. -/
def served (server : TcpServer) (f : TcpFrame) : Option TcpDispatch :=
  match fromDatasString.run f.payload with
  | .error _ => none
  | .ok (router, buffer) =>
      if server.contexts router = .tcp then some ⟨f.src, router, buffer⟩ else none

/-- The loop over the frames has ended by an error code and has dispatched all it should. -/
structure Survives (order : ByteOrder) (server : TcpServer) (stream : List Bytes)
    (frames : List TcpFrame) : Prop where
  ending : (tcpAccept order server stream).ending = .closed
  dispatched : (tcpAccept order server stream).dispatched = frames.filterMap (served server)

/-- The router of a frame is decoded without a fault and fits into the memory, and the handler
behind it does not run into undefined behaviour. -/
def RouterReadable (server : TcpServer) (f : TcpFrame) : Prop :=
  ∃ router buffer, fromDatasString.run f.payload = .ok (router, buffer) ∧
    server.allocates router.length = true ∧
    (server.contexts router = .tcp → server.consume router buffer ≠ .error .undefined)

section Loop

variable {server : TcpServer} {f : TcpFrame} {frames : List TcpFrame}

/-- The loop goes on behind a frame whose router is readable. -/
theorem tcpTurn_of_readable (h : RouterReadable server f) :
    tcpTurn server f.src f.payload = .ok (served server f) := by
  obtain ⟨router, buffer, hrouter, hallocates, hconsume⟩ := h
  simp only [tcpTurn, served, hrouter, hallocates, Bool.true_eq_false, if_false]
  cases hcontext : server.contexts router with
  | missing => rfl
  | foreign => rfl
  | tcp =>
      simp only [if_true]
      split
      · rename_i hundefined
        exact absurd hundefined (hconsume hcontext)
      · rfl

/-- The loop is left at any other frame, and not by an error code. -/
theorem tcpTurn_of_not_readable (h : ¬RouterReadable server f) :
    ∃ ending, ending ≠ .closed ∧ tcpTurn server f.src f.payload = .error ending := by
  rw [tcpTurn]
  split
  · exact ⟨.undefined, by decide, rfl⟩
  · exact ⟨.thrown, by decide, rfl⟩
  · rename_i router buffer hrouter
    split
    · exact ⟨.thrown, by decide, rfl⟩
    · rename_i hallocates
      have hundefined : server.contexts router = .tcp ∧
          server.consume router buffer = .error .undefined := by
        by_contra hdefined
        refine h ⟨router, buffer, hrouter, Bool.not_eq_false _ ▸ hallocates, ?_⟩
        exact fun hcontext hconsume => hdefined ⟨hcontext, hconsume⟩
      simp only [hundefined.1, hundefined.2]
      exact ⟨.undefined, by decide, rfl⟩

/-- All frames are served when their routers are readable. -/
theorem acceptFrames_of_readable (h : ∀ f ∈ frames, RouterReadable server f) :
    acceptFrames server (frames.map fun f => (f.src, f.payload)) =
      ⟨frames.filterMap (served server), .closed⟩ := by
  induction frames with
  | nil => rfl
  | cons f frames ih =>
      rw [List.map_cons, acceptFrames, tcpTurn_of_readable (h f List.mem_cons_self)]
      simp only [ih fun g hg => h g (List.mem_cons_of_mem f hg)]
      rw [List.filterMap_cons]
      cases served server f with
      | none => rfl
      | some dispatched => rfl

/-- A loop that ends by an error code has read every router. -/
theorem readable_of_closed
    (h : (acceptFrames server (frames.map fun f => (f.src, f.payload))).ending = .closed) :
    ∀ f ∈ frames, RouterReadable server f := by
  induction frames with
  | nil =>
      intro f hf
      cases hf
  | cons f frames ih =>
      have hf : RouterReadable server f := by
        by_contra hf
        obtain ⟨ending, hne, hturn⟩ := tcpTurn_of_not_readable hf
        rw [List.map_cons, acceptFrames, hturn] at h
        exact hne h
      rw [List.map_cons, acceptFrames, tcpTurn_of_readable hf] at h
      intro g hg
      rcases List.mem_cons.mp hg with rfl | hg
      · exact hf
      · exact ih h g hg

end Loop

/-- The loop ends by an error code exactly when it can read every router. -/
theorem closed_iff (order : ByteOrder) (server : TcpServer) (frames : List TcpFrame)
    (stream : List Bytes) (hwire : stream.flatten = frames.flatMap (TcpFrame.bytes order)) :
    (tcpAccept order server stream).ending = .closed ↔ ∀ f ∈ frames, RouterReadable server f := by
  rw [tcpAccept_of_wire order server frames stream hwire]
  constructor
  · exact readable_of_closed
  · intro h
    rw [acceptFrames_of_readable h]

/-- **When the loop survives.** For every sequence of frames with payloads that are not empty,
and however their bytes come in: `accept` ends by an error code and has dispatched every frame
with a router that can be decoded and is registered, if and only if the router of every frame
is readable. -/
theorem survives_iff (order : ByteOrder) (server : TcpServer) (frames : List TcpFrame)
    (stream : List Bytes) (hwire : stream.flatten = frames.flatMap (TcpFrame.bytes order)) :
    Survives order server stream frames ↔ ∀ f ∈ frames, RouterReadable server f := by
  have hclosed := closed_iff order server frames stream hwire
  constructor
  · exact fun h => hclosed.mp h.ending
  · intro h
    refine { ending := hclosed.mpr h, dispatched := ?_ }
    rw [tcpAccept_of_wire order server frames stream hwire, acceptFrames_of_readable h]

/-- A server with the router `/`, for requests with one integer. -/
def slashServer : TcpServer where
  contexts router := if router = [47] then .tcp else .missing
  consume _ buffer := ((TcpRequest.create idSerialization).consume idSerialization buffer).2
  allocates size := size < 2 ^ 32

/-- A request to `/`. -/
def slashFrame : TcpFrame := ⟨7, [1, 47, 5], by decide⟩

/-- A request to a router that is not registered. -/
def otherFrame : TcpFrame := ⟨8, [1, 48], by decide⟩

/-- A frame whose payload ends inside the length of the router. -/
def cutFrame : TcpFrame := ⟨9, [128], by decide⟩

/-- An unknown router does not keep the loop from the request behind it, nor does a body that
cannot be read. -/
theorem survives_other :
    Survives .little slashServer [[otherFrame, slashFrame].flatMap (TcpFrame.bytes .little)]
      [otherFrame, slashFrame] := by
  refine (survives_iff .little slashServer [otherFrame, slashFrame] _ (List.append_nil _)).mpr ?_
  intro f hf
  rcases List.mem_pair.mp hf with rfl | rfl
  · exact ⟨[48], [], rfl, rfl, fun h => by cases h⟩
  · have hconsume : slashServer.consume [47] [5] = .error .outOfRange := rfl
    refine ⟨[47], [5], rfl, rfl, fun _ h => ?_⟩
    rw [hconsume] at h
    cases h

/-- **A payload of one byte**, the first of a longer length: `accept` is left by an exception,
and the request behind it is not dispatched. -/
theorem not_survives_cut :
    ¬Survives .little slashServer [[cutFrame, slashFrame].flatMap (TcpFrame.bytes .little)]
        [cutFrame, slashFrame] ∧
      (tcpAccept .little slashServer
        [[cutFrame, slashFrame].flatMap (TcpFrame.bytes .little)]).ending = .thrown := by
  have haccept := tcpAccept_of_wire .little slashServer [cutFrame, slashFrame]
    [[cutFrame, slashFrame].flatMap (TcpFrame.bytes .little)] (List.append_nil _)
  have hending : (tcpAccept .little slashServer
      [[cutFrame, slashFrame].flatMap (TcpFrame.bytes .little)]).ending = .thrown := by
    rw [haccept]
    rfl
  refine ⟨fun h => ?_, hending⟩
  have hclosed := h.ending
  rw [hending] at hclosed
  cases hclosed

end Aquarius
