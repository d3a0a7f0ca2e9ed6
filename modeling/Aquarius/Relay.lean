import Aquarius.TcpAccept
import Aquarius.TcpCompletion

/-!
# The Relay of `serviced`

A client sends a frame to `serviced`; `tcp::accept` (`ip/tcp.hpp`) takes the router off the
payload and looks up its context. A topic of an instance is bound to a
`basic_transfer_context` (`serviced/basic_transfer_context.hpp`), whose function (the lambda
of `client_pool::shake`) calls `async_call_buffer` on a connection to that instance: the router
is put back in front of the rest, under a `src` of its own. The transfer context is shared by all
topics of an instance; the router attached to it is read again before anything else runs. `accept`
awaits the call before it receives the next frame of its session.

The answer arrives in the `query` of the connection. `filling_buffer` finds the callback
registered under that `src` and runs it with the router and the rest of the payload, and the
callback is the response lambda of the `accept` the request came in on, which puts the router
back once more. Behind the callback the call is notified as any other one (`TcpClient`), and with
it `accept` goes on.

Every connection is a client, with all its steps, and every frame that is not an answer is taken
apart as in `accept` (`tcpTurn`). A frame of an instance that nobody waits for is handed to the
context of its router by `query` itself, which then awaits `complete()` in the place of an
`accept`; the callback it passes is empty and throws. An exception ends either loop, and so does
a router that cannot be read. A frame to an instance is recorded when it has been sent, an
answer when it is handed to `async_send`.

## Main definitions

* `relayStep`: one step of the relay.
* `Transparent`: what a client and an instance are to see of it.
* `RelayState.Drawn`, `RelayState.Unhindered`: what a step must satisfy for that.
-/

open Decoding Transition

namespace Aquarius

/-! ### The state -/

/-- What the process itself has, for `accept`: its own contexts and what their handlers make of a
payload, and the memory, in which there is room for what a frame can carry. -/
structure Process extends TcpServer where
  allocates_frame : ∀ n < 2 ^ 32, allocates n = true

/-- Who awaits `complete()` of a transfer context: the `accept` of a session, or the `query` of a
connection. -/
inductive Relayer where
  | session (n : ℕ)
  | query (conn : ℕ)
  deriving DecidableEq, Repr

/-- Where its loop is: in `recv`, in `complete()` for a frame with this source, which is a call on
a connection, or left. -/
inductive RelayPhase where
  | receiving
  | completing (src : BitVec 32) (conn call : ℕ)
  | ended
  deriving DecidableEq, Repr

/-- What is known of a relayed call: who relayed it and the `src` to answer with, which its
callback has captured, and the bytes handed to `async_send`. -/
structure Caller where
  relayer : Relayer
  src : BitVec 32
  frame : Bytes
  deriving DecidableEq, Repr

/-- The relay: the topics bound to a transfer context, by the connection that its function takes
(always the first one to the instance), the loops, the handlers at work for a session, the
connections with what is known of their calls, and what has been sent to the instances and
handed to the sessions. -/
structure RelayState where
  bound : Bytes → Option ℕ := fun _ => none
  relayers : Relayer → RelayPhase := fun _ => .receiving
  handling : ℕ → ℕ := fun _ => 0
  conns : ℕ → ClientState := fun _ => {}
  callers : ℕ × ℕ → Option Caller := fun _ => none
  toInstance : List (ℕ × Bytes) := []
  toClient : List (ℕ × Bytes) := []

/-- What can happen next. `newSrc` is what the generator draws, if it is asked. -/
inductive RelayEvent where
  /-- `mpc_put_context` of a topic with the transfer context of an instance -/
  | put (topic : Bytes) (conn : ℕ)
  /-- `recv` in the `accept` of a session returns a frame -/
  | clientFrame (session : ℕ) (src : BitVec 32) (payload : Bytes) (newSrc : BitVec 32)
  /-- `recv` in the `accept` of a session fails -/
  | clientCloses (session : ℕ)
  /-- a `handle_request` of the process that was spawned for a session ends -/
  | handled (session : ℕ)
  /-- `recv` in the `query` of a connection returns a frame -/
  | instanceFrame (conn : ℕ) (src : BitVec 32) (payload : Bytes) (newSrc : BitVec 32)
  /-- another step of the client on a connection -/
  | connection (conn : ℕ) (e : ClientEvent)
  deriving DecidableEq, Repr

/-! ### Steps -/

/-- A loop goes on when the call it awaits has returned. -/
def RelayPhase.goOn (conn : ℕ) (client : ClientState) : RelayPhase → RelayPhase
  | .completing src conn' call =>
      if conn' = conn ∧ client.calls[call]?.any (·.phase.finished) then .receiving
      else .completing src conn' call
  | phase => phase

namespace RelayState

variable (order : ByteOrder) (process : Process) (s : RelayState)

/-- `mpc_put_context`, which keeps a context that is there -/
def put (topic : Bytes) (conn : ℕ) : RelayState :=
  if process.contexts topic = .missing ∧ s.bound topic = none then
    { s with bound := Function.update s.bound topic (some conn) }
  else s

/-- What `accept` and `query` take from elsewhere, with the transfer contexts: these do not read
the payload. -/
def server : TcpServer where
  contexts router := if (s.bound router).isSome then .tcp else process.contexts router
  consume router buffer :=
    if (s.bound router).isSome then .ok buffer else process.consume router buffer
  allocates := process.allocates

/-- The connection that a payload is relayed to. -/
def target (payload : Bytes) : Option ℕ :=
  match fromDatasString.run payload with
  | .ok (router, _) => s.bound router
  | .error _ => none

/-- `complete()` of the context of a router: a handler is spawned, and a transfer context comes up
to its `send_buffer`. -/
def complete (relayer : Relayer) (d : TcpDispatch) (newSrc : BitVec 32) : Option RelayState :=
  match s.bound d.router with
  | none =>
      match relayer with
      | .session n => some { s with handling := Function.update s.handling n (s.handling n + 1) }
      | .query _ => some s
  | some conn =>
      (clientStep (s.conns conn) (.start newSrc (.asyncCallBuffer true))).map fun client =>
        let call := (s.conns conn).calls.length
        let frame := (sendBuffer newSrc d.buffer d.router).asyncSend order
        { s with
          relayers := Function.update s.relayers relayer (.completing d.src conn call)
          conns := Function.update s.conns conn client
          callers := Function.update s.callers (conn, call) (some ⟨relayer, d.src, frame⟩) }

/-- What a step of a connection has sent to its instance. -/
def sent (conn : ℕ) : ClientEvent → List (ℕ × Bytes)
  | .sendDone call true => (s.callers (conn, call)).toList.map fun caller => (conn, caller.frame)
  | _ => []

/-- What the callback of an invocation writes: the response lambda of `accept`, which sends on the
session. -/
def written (conn : ℕ) (v : Invocation) : Option (ℕ × Bytes) :=
  match s.callers (conn, v.call) with
  | some ⟨.session n, src, _⟩ => some (n, (respond src v.buffer v.router).asyncSend order)
  | _ => none

/-- The callback that the `query` of a connection is in is the empty one of another `query`. -/
def callbackThrows (conn : ℕ) : Bool :=
  match (s.conns conn).query with
  | .invoking src =>
      ((s.conns conn).find src).any fun call =>
        (s.callers (conn, call)).any fun caller =>
          match caller.relayer with
          | .session _ => false
          | .query _ => true
  | _ => false

/-- A step of the client on a connection, with what it sends and what its callbacks write. -/
def connectionStep (conn : ℕ) (e : ClientEvent) : Option RelayState :=
  (clientStep (s.conns conn) e).map fun client =>
    { s with
      relayers := fun relayer => (s.relayers relayer).goOn conn client
      conns := Function.update s.conns conn client
      toInstance := s.toInstance ++ s.sent conn e
      toClient := s.toClient ++
        (client.invoked.drop (s.conns conn).invoked.length).filterMap (s.written order conn) }

/-- The steps of a connection that do not relay: `query` is in `recv` when that fails, and throws
from a callback only when this is empty. -/
def admits (conn : ℕ) : ClientEvent → Bool
  | .frame .. | .start _ (.asyncCallBuffer _) => false
  | .recvFails => s.relayers (.query conn) = .receiving
  | .funcDone => !s.callbackThrows conn
  | .funcThrows => s.callbackThrows conn
  | .start _ .asyncCall | .sendDone .. | .receive _ | .resume _ => true

end RelayState

/-- One step of the relay. What is undefined has no successor. -/
def relayStep (order : ByteOrder) (process : Process) (s : RelayState) :
    RelayEvent → Option RelayState
  | .put topic conn => some (s.put process topic conn)
  | .clientFrame n src payload newSrc =>
      if s.relayers (.session n) = .receiving then
        match tcpTurn (s.server process) src payload with
        | .error .undefined => none
        | .error _ => some { s with relayers := Function.update s.relayers (.session n) .ended }
        | .ok none => some s
        | .ok (some d) => s.complete order (.session n) d newSrc
      else none
  | .clientCloses n =>
      if s.relayers (.session n) = .receiving then
        some { s with relayers := Function.update s.relayers (.session n) .ended }
      else none
  | .handled n =>
      if s.handling n = 0 then none
      else some { s with handling := Function.update s.handling n (s.handling n - 1) }
  | .instanceFrame conn src payload newSrc =>
      if s.relayers (.query conn) = .receiving then
        match tcpTurn (s.server process) src payload, (s.conns conn).find src with
        -- the exception ends `query` as a failing `recv` does
        | .error .thrown, _ => s.connectionStep order conn .recvFails
        -- `filling_buffer` has found nobody
        | .error _, none => none
        | .ok (some d), none =>
            (s.connectionStep order conn (.frame src payload)).bind fun s' =>
              s'.complete order (.query conn) d newSrc
        | _, _ => s.connectionStep order conn (.frame src payload)
      else none
  | .connection conn e => if s.admits conn e then s.connectionStep order conn e else none

/-! ### Transparency -/

/-- What is written arrives as one frame, in whatever segments and with whatever behind it. -/
def ArrivesAs (order : ByteOrder) (bytes : Bytes) (src : BitVec 32) (payload : Bytes) : Prop :=
  ∀ (stream : List Bytes) (t : Bytes), stream.flatten = bytes ++ t →
    ∃ rest, recv order stream = some ((src, payload), rest) ∧ rest.flatten = t

section Transparency

variable (order : ByteOrder) (process : Process) (s : RelayState)

/-- The frame of a session is in `async_send`: nothing else is sent on the connection, and when it
has been sent the instance has it. -/
def Sends (n : ℕ) (src : BitVec 32) (conn call : ℕ) : Prop :=
  (∀ i c, (s.conns conn).calls[i]? = some c → c.phase = .sending → i = call) ∧
    ∃ s' frame, relayStep order process s (.connection conn (.sendDone call true)) = some s' ∧
      s.callers (conn, call) = some ⟨.session n, src, frame⟩ ∧
      s'.toInstance = s.toInstance ++ [(conn, frame)] ∧ s'.toClient = s.toClient

/-- The call of a session is not answered yet, and the connection takes its answer: the client of
the session receives a frame with the `src` of its request and the payload of the answer, nothing
else is written to it, and no handler of the process writes either. -/
structure Awaits (n : ℕ) (src : BitVec 32) (conn : ℕ) (c : Call) : Prop where
  unanswered : c.answered = false
  alive : (s.conns conn).query ≠ .ended
  alone : s.handling n = 0
  delivers : (s.conns conn).query = .running → ∀ (r q : Bytes) (newSrc : BitVec 32), r ≠ [] →
    (toDatasString r ++ q).length < 2 ^ 32 →
    ∃ s' bytes,
      relayStep order process s (.instanceFrame conn c.src (toDatasString r ++ q) newSrc) =
        some s' ∧
      s'.toClient = s.toClient ++ [(n, bytes)] ∧ s'.toInstance = s.toInstance ∧
      ArrivesAs order bytes src (toDatasString r ++ q)

/-- The call of a session is about to return, and the session goes on to its next frame. -/
def Returns (n conn call : ℕ) : Prop :=
  ∃ s', relayStep order process s (.connection conn (.resume call)) = some s' ∧
    s'.relayers (.session n) = .receiving

/-- **Relay transparency.** A session in `recv` relays the next frame, and one that is not gets its
answer, or has had it and will be in `recv` again. -/
structure Transparent : Prop where
  /-- The frame that is sent to the instance has the payload of the client's. -/
  request : ∀ (n : ℕ) (src : BitVec 32) (r q : Bytes) (newSrc : BitVec 32) (conn : ℕ),
    s.relayers (.session n) = .receiving → r ≠ [] → (toDatasString r ++ q).length < 2 ^ 32 →
    s.bound r = some conn →
    ∃ s' call c frame,
      relayStep order process s (.clientFrame n src (toDatasString r ++ q) newSrc) = some s' ∧
      s'.relayers (.session n) = .completing src conn call ∧
      (s'.conns conn).calls[call]? = some c ∧ c.src = newSrc ∧ c.phase = .sending ∧
      s'.callers (conn, call) = some ⟨.session n, src, frame⟩ ∧
      ArrivesAs order frame newSrc (toDatasString r ++ q) ∧
      s'.toInstance = s.toInstance ∧ s'.toClient = s.toClient
  /-- The instance receives it. -/
  sent : ∀ (n : ℕ) (src : BitVec 32) (conn call : ℕ) (c : Call),
    s.relayers (.session n) = .completing src conn call →
    (s.conns conn).calls[call]? = some c → c.phase = .sending →
    Sends order process s n src conn call
  /-- The client receives a frame with the payload of the answer. -/
  answer : ∀ (n : ℕ) (src : BitVec 32) (conn call : ℕ),
    s.relayers (.session n) = .completing src conn call →
    ∃ c, (s.conns conn).calls[call]? = some c ∧
      (Awaits order process s n src conn c ∨ Returns order process s n conn call)

end Transparency

/-! ### The condition -/

/-- The router of a payload can be read. -/
def Process.reads (process : Process) (payload : Bytes) : Bool :=
  match fromDatasString.run payload with
  | .ok (router, _) => process.allocates router.length
  | .error _ => false

namespace RelayState

variable (process : Process) (s : RelayState)

/-- No relayed call is under way on a connection. -/
def Unawaited (conn : ℕ) : Prop :=
  ∀ i < (s.conns conn).calls.length, (s.callers (conn, i)).isSome →
    (s.conns conn).calls[i]?.any (·.phase.finished) = true

instance (conn : ℕ) : Decidable (s.Unawaited conn) :=
  inferInstanceAs (Decidable (∀ i < (s.conns conn).calls.length, (s.callers (conn, i)).isSome →
    (s.conns conn).calls[i]?.any (·.phase.finished) = true))

/-- Nobody is in `async_send` on a connection. -/
def Silent (conn : ℕ) : Prop := ∀ c ∈ (s.conns conn).calls, c.phase ≠ .sending

instance (conn : ℕ) : Decidable (s.Silent conn) :=
  inferInstanceAs (Decidable (∀ c ∈ (s.conns conn).calls, c.phase ≠ .sending))

/-- A connection is there: its `query` is, and no send on it has failed. -/
def Connected (conn : ℕ) : Prop :=
  (s.conns conn).query ≠ .ended ∧ ∀ c ∈ (s.conns conn).calls, c.phase ≠ .abandoned

instance (conn : ℕ) : Decidable (s.Connected conn) :=
  inferInstanceAs (Decidable ((s.conns conn).query ≠ .ended ∧
    ∀ c ∈ (s.conns conn).calls, c.phase ≠ .abandoned))

/-- The generator draws a source that no call on the connection has which has not returned. -/
def Drawn : RelayEvent → Prop
  | .clientFrame _ _ payload newSrc | .instanceFrame _ _ payload newSrc =>
      ∀ conn ∈ s.target payload, Fresh (s.conns conn) (.start newSrc (.asyncCallBuffer true))
  | .connection conn e => Fresh (s.conns conn) e
  | .put .. | .clientCloses _ | .handled _ => True

instance (e : RelayEvent) : Decidable (s.Drawn e) :=
  match e with
  | .clientFrame _ _ payload newSrc | .instanceFrame _ _ payload newSrc =>
      inferInstanceAs (Decidable (∀ conn ∈ s.target payload,
        Fresh (s.conns conn) (.start newSrc (.asyncCallBuffer true))))
  | .connection conn e => inferInstanceAs (Decidable (Fresh (s.conns conn) e))
  | .put .. | .clientCloses _ | .handled _ => .isTrue trivial

/-- What a step of a connection must leave alone: a call starts to send when nobody else does, and
a connection on which a relayed call is under way does not fail. -/
def Undamaged (conn : ℕ) : ClientEvent → Prop
  | .start .. => s.Silent conn
  | .sendDone _ false | .recvFails => s.Unawaited conn
  | .sendDone _ true | .receive _ | .frame .. | .funcDone | .funcThrows | .resume _ => True

instance (conn : ℕ) (e : ClientEvent) : Decidable (s.Undamaged conn e) :=
  match e with
  | .start .. => inferInstanceAs (Decidable (s.Silent conn))
  | .sendDone _ false | .recvFails => inferInstanceAs (Decidable (s.Unawaited conn))
  | .sendDone _ true | .receive _ | .frame .. | .funcDone | .funcThrows | .resume _ =>
      .isTrue trivial

/-- A step hinders no frame and no answer: a frame is relayed to a connection that is there and on
which nobody sends, and no handler of the process is at work for its session; a connection on
which a relayed call is under way does not fail, and its `query` does not end by a router that
cannot be read; an answer is completed for the oldest receiver on its connection; and a frame that
nobody waits for is not relayed in turn. -/
def Unhindered : RelayEvent → Prop
  | .clientFrame n _ payload _ =>
      ∀ conn ∈ s.target payload, s.Connected conn ∧ s.Silent conn ∧ s.handling n = 0
  | .instanceFrame conn src payload _ =>
      if process.reads payload = true then
        HeadWaits (s.conns conn) (.frame src payload) ∧
          ((s.conns conn).find src = none → s.target payload = none)
      else s.Unawaited conn
  | .connection conn e => HeadWaits (s.conns conn) e ∧ s.Undamaged conn e
  | .put .. | .clientCloses _ | .handled _ => True

instance (e : RelayEvent) : Decidable (s.Unhindered process e) :=
  match e with
  | .clientFrame n _ payload _ =>
      inferInstanceAs (Decidable (∀ conn ∈ s.target payload,
        s.Connected conn ∧ s.Silent conn ∧ s.handling n = 0))
  | .instanceFrame conn src payload _ =>
      inferInstanceAs (Decidable (if process.reads payload = true then
        HeadWaits (s.conns conn) (.frame src payload) ∧
          ((s.conns conn).find src = none → s.target payload = none)
      else s.Unawaited conn))
  | .connection conn e =>
      inferInstanceAs (Decidable (HeadWaits (s.conns conn) e ∧ s.Undamaged conn e))
  | .put .. | .clientCloses _ | .handled _ => .isTrue trivial

end RelayState

end Aquarius
