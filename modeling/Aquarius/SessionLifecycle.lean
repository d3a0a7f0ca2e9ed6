import Aquarius.TcpAccept

/-!
# The Life of a Session

`start_accept` (`basic_server.hpp`) spawns one coroutine for each connection: it awaits the
accept callback, awaits `accept()` of the protocol, calls the close callback and shuts the
session down. An `asio::awaitable` runs when it is awaited, and not before. The close callback
is called without `co_await`, so the awaitable is built and dropped, and an exception from
`accept()` leaves the coroutine before either of the last two steps.

A coroutine is modelled by what it does when it is awaited, up to its end or its exception. One
that is not awaited is a value nothing is done with.

## Main results

* `lifecycle_iff`: **the life of a session is as it should be** exactly when no close callback
  is registered and neither the accept callback nor `accept()` throws.
* `lifecycle_tcp_iff`: over `tcp`, exactly when no close callback is registered, the accept
  callback does not throw and the router of every frame is readable.
* `not_lifecycle_closed`: a connection that is closed at once, with both callbacks.
-/

open Decoding

namespace Aquarius

/-! ### Coroutines -/

/-- A coroutine: what it does, and what it returns, or `none` when it ends by an exception. -/
structure Coroutine (E α : Type) where
  trace : List E
  result : Option α

namespace Coroutine

variable {E α β : Type}

/-- `co_return` -/
def ret (a : α) : Coroutine E α := ⟨[], some a⟩

/-- Do one thing. -/
def act (e : E) : Coroutine E Unit := ⟨[e], some ()⟩

/-- `co_await`: the second part runs with the result of the first, unless that threw. -/
def await (c : Coroutine E α) (k : α → Coroutine E β) : Coroutine E β :=
  match c.result with
  | none => ⟨c.trace, none⟩
  | some a => ⟨c.trace ++ (k a).trace, (k a).result⟩

instance : Monad (Coroutine E) where
  pure := ret
  bind := await

/-- Awaiting a coroutine that throws. -/
theorem trace_await_of_none {c : Coroutine E α} (h : c.result = none)
    (k : α → Coroutine E β) : (c >>= k).trace = c.trace := by
  change (await c k).trace = c.trace
  rw [await, h]

/-- Awaiting a coroutine that returns. -/
theorem trace_await_of_some {c : Coroutine E α} {a : α} (h : c.result = some a)
    (k : α → Coroutine E β) : (c >>= k).trace = c.trace ++ (k a).trace := by
  change (await c k).trace = c.trace ++ (k a).trace
  rw [await, h]

end Coroutine

/-! ### The session -/

/-- What happens in a session, with frames of type `F`. -/
inductive SessionEvent (F : Type) where
  | acceptCallback
  | frame (f : F)
  /-- `accept()` has ended -/
  | ended
  | closeCallback
  | shutdown
  deriving DecidableEq

/-- How a callback of the user ends. -/
inductive CallbackEnd where
  | returns
  | throws
  deriving DecidableEq

/-- The callbacks of a `basic_server`, if they are registered. -/
structure SessionServer where
  acceptFunc : Option CallbackEnd
  closeFunc : Option CallbackEnd

/-- A run of the protocol's `accept()`: the frames it processes, and the error code it returns,
or `none` when it throws. -/
structure AcceptRun (F : Type) where
  frames : List F
  ending : Option ErrorCode

section Session

variable {F P : Type} (server : SessionServer)

/-- `accept()` -/
def AcceptRun.accept (run : AcceptRun F) : Coroutine (SessionEvent F) ErrorCode :=
  ⟨run.frames.map .frame ++ [.ended], run.ending⟩

/-- `accept_func` and `close_func`: the callback, if it is registered and there is a session. -/
def invoke (callback : Option CallbackEnd) (e : SessionEvent F) (proto : Option P) :
    Coroutine (SessionEvent F) Unit :=
  match callback, proto with
  | some .returns, some _ => .act e
  | some .throws, some _ => ⟨[e], none⟩
  | _, _ => .ret ()

/-- `basic_server::accept_func` -/
def acceptFunc (proto : Option P) : Coroutine (SessionEvent F) Unit :=
  invoke server.acceptFunc .acceptCallback proto

/-- `basic_server::close_func` -/
def closeFunc (proto : Option P) : Coroutine (SessionEvent F) Unit :=
  invoke server.closeFunc .closeCallback proto

/-- The coroutine `start_accept` spawns for a connection. -/
def session (proto : P) (run : AcceptRun F) : Coroutine (SessionEvent F) Unit := do
  acceptFunc server (some proto)
  let _ec ← run.accept
  -- `close_func(proto_ptr);` is not awaited
  let _dropped : Coroutine (SessionEvent F) Unit := closeFunc server (some proto)
  .act .shutdown

end Session

/-! ### The life of a session -/

/-- `a` comes before every `b`. -/
def Precedes {E : Type} (a b : E) (trace : List E) : Prop :=
  ∀ l₁ l₂, trace = l₁ ++ b :: l₂ → a ∈ l₁

/-- An `a` in front of the first `b` precedes them all. -/
theorem precedes_append {E : Type} {a b : E} {l : List E} (ha : a ∈ l) (hb : b ∉ l)
    (l' : List E) : Precedes a b (l ++ l') := by
  intro l₁ l₂ h
  rcases List.append_eq_append_iff.mp h with ⟨m, rfl, -⟩ | ⟨m, rfl, hm⟩
  · exact List.mem_append_left m ha
  · cases m with
    | nil => simpa using ha
    | cons c m =>
        obtain ⟨rfl, -⟩ := List.cons.inj hm
        exact absurd (List.mem_append_right l₁ List.mem_cons_self) hb

/-- What the life of a session should be: a registered accept callback is executed exactly once
and before the first frame, a registered close callback is executed exactly once and after
`accept()` has ended, and the session is shut down behind that. -/
structure Lifecycle {F : Type} [DecidableEq F] (server : SessionServer)
    (trace : List (SessionEvent F)) : Prop where
  accepted : server.acceptFunc ≠ none → trace.count .acceptCallback = 1 ∧
    ∀ f, Precedes .acceptCallback (.frame f) trace
  closed : server.closeFunc ≠ none → trace.count .closeCallback = 1 ∧
    Precedes .ended .closeCallback trace ∧ Precedes .closeCallback .shutdown trace
  shutdown : .shutdown ∈ trace ∧ Precedes .ended .shutdown trace

section Lifecycle

variable {F P : Type} {server : SessionServer} {proto : P} {run : AcceptRun F}

/-- What the accept callback does. -/
def acceptTrace (server : SessionServer) : List (SessionEvent F) :=
  if server.acceptFunc = none then [] else [.acceptCallback]

/-- A session whose accept callback throws ends with it. -/
theorem trace_session_of_throws (h : server.acceptFunc = some .throws) :
    (session server proto run).trace = [.acceptCallback] := by
  rw [session, acceptFunc, h]
  exact Coroutine.trace_await_of_none rfl _

/-- Behind an accept callback that returns, `accept()` runs; the session is shut down if that
returns. -/
theorem trace_session (h : server.acceptFunc ≠ some .throws) :
    (session server proto run).trace = (acceptTrace server ++ run.frames.map .frame ++ [.ended]) ++
      if run.ending = none then [] else [.shutdown] := by
  have hreturns : (acceptFunc server (some proto) : Coroutine (SessionEvent F) Unit) =
      ⟨acceptTrace server, some ()⟩ := by
    rw [acceptFunc, acceptTrace]
    cases hfunc : server.acceptFunc with
    | none => rfl
    | some callback =>
        cases callback with
        | returns => rfl
        | throws => exact absurd hfunc h
  rw [session, hreturns, Coroutine.trace_await_of_some rfl]
  cases hending : run.ending with
  | none =>
      rw [Coroutine.trace_await_of_none hending, if_pos rfl, List.append_nil, List.append_assoc]
      rfl
  | some ec =>
      rw [Coroutine.trace_await_of_some hending, if_neg (Option.some_ne_none ec)]
      simp only [AcceptRun.accept, List.append_assoc]
      rfl

/-- The close callback is never executed. -/
theorem closeCallback_not_mem : .closeCallback ∉ (session server proto run).trace := by
  by_cases hfunc : server.acceptFunc = some .throws
  · rw [trace_session_of_throws hfunc]
    simp
  · rw [trace_session hfunc, acceptTrace]
    split <;> split <;> simp

/-- The session is shut down exactly when nothing throws. -/
theorem shutdown_mem_iff : .shutdown ∈ (session server proto run).trace ↔
    server.acceptFunc ≠ some .throws ∧ run.ending ≠ none := by
  by_cases hfunc : server.acceptFunc = some .throws
  · rw [trace_session_of_throws hfunc]
    simp [hfunc]
  · rw [trace_session hfunc, acceptTrace]
    split <;> split <;> simp_all

variable [DecidableEq F]

/-- A session in which nothing throws, without a close callback. -/
theorem lifecycle_of_returns (haccept : server.acceptFunc ≠ some .throws)
    (hending : run.ending ≠ none) (hclose : server.closeFunc = none) :
    Lifecycle server (session server proto run).trace := by
  refine { accepted := fun hfunc => ?_, closed := fun h => absurd hclose h, shutdown := ?_ }
  · have htrace : (session server proto run).trace = [.acceptCallback] ++
        (run.frames.map .frame ++ [.ended, .shutdown]) := by
      rw [trace_session haccept, acceptTrace, if_neg hfunc, if_neg hending]
      simp
    rw [htrace]
    refine ⟨?_, fun f => precedes_append (List.mem_singleton_self _) (by simp) _⟩
    have hrest : SessionEvent.acceptCallback ∉
        (run.frames.map .frame ++ [.ended, .shutdown] : List (SessionEvent F)) := by
      simp
    rw [List.singleton_append, List.count_cons_self, List.count_eq_zero.mpr hrest]
  · refine ⟨shutdown_mem_iff.mpr ⟨haccept, hending⟩, ?_⟩
    rw [trace_session haccept]
    refine precedes_append (List.mem_append_right _ (List.mem_singleton_self _)) ?_ _
    rw [acceptTrace]
    split <;> simp

/-- A session whose life is as it should be has no close callback, and nothing in it throws. -/
theorem returns_of_lifecycle (h : Lifecycle server (session server proto run).trace) :
    server.closeFunc = none ∧ run.ending ≠ none ∧ server.acceptFunc ≠ some .throws := by
  obtain ⟨haccept, hending⟩ := shutdown_mem_iff.mp h.shutdown.1
  refine ⟨?_, hending, haccept⟩
  by_contra hclose
  have honce := (h.closed hclose).1
  rw [List.count_eq_zero.mpr closeCallback_not_mem] at honce
  cases honce

end Lifecycle

/-- **The life of a session.** For every connection and every way in which `accept()` ends: the
callbacks are executed and the session is shut down as they should be if and only if no close
callback is registered, `accept()` returns, and the accept callback does not throw. -/
theorem lifecycle_iff {F P : Type} [DecidableEq F] (server : SessionServer) (proto : P)
    (run : AcceptRun F) :
    Lifecycle server (session server proto run).trace ↔
      server.closeFunc = none ∧ run.ending ≠ none ∧ server.acceptFunc ≠ some .throws := by
  constructor
  · exact returns_of_lifecycle
  · rintro ⟨hclose, hending, haccept⟩
    exact lifecycle_of_returns haccept hending hclose

/-- A server with both callbacks. -/
def bothCallbacks : SessionServer := ⟨some .returns, some .returns⟩

/-- **A connection that is closed at once**: `accept()` returns `eof`, the session is shut
down, and the close callback is not executed. -/
theorem not_lifecycle_closed :
    (session bothCallbacks () (⟨[], some asioEof⟩ : AcceptRun Unit)).trace =
        [.acceptCallback, .ended, .shutdown] ∧
      ¬Lifecycle bothCallbacks
        (session bothCallbacks () (⟨[], some asioEof⟩ : AcceptRun Unit)).trace := by
  refine ⟨rfl, fun h => ?_⟩
  obtain ⟨hclose, -, -⟩ := returns_of_lifecycle h
  cases hclose

/-! ### Sessions over tcp -/

/-- The run of `tcp::accept` on the bytes of a connection, unless it is undefined. -/
def tcpRun (order : ByteOrder) (server : TcpServer) (stream : List Bytes) :
    Option (AcceptRun TcpDispatch) :=
  let accepted := tcpAccept order server stream
  match accepted.ending with
  | .closed => some ⟨accepted.dispatched, some asioEof⟩
  | .thrown => some ⟨accepted.dispatched, none⟩
  | .undefined => none

/-- **Sessions over tcp.** For every sequence of frames with payloads that are not empty, and
however their bytes come in: the life of the session is as it should be if and only if no close
callback is registered, the accept callback does not throw, and the router of every frame is
readable. -/
theorem lifecycle_tcp_iff {P : Type} (order : ByteOrder) (tcp : TcpServer)
    (server : SessionServer) (proto : P) (frames : List TcpFrame) (stream : List Bytes)
    (hwire : stream.flatten = frames.flatMap (TcpFrame.bytes order))
    {run : AcceptRun TcpDispatch} (hrun : tcpRun order tcp stream = some run) :
    Lifecycle server (session server proto run).trace ↔
      server.closeFunc = none ∧ (∀ f ∈ frames, RouterReadable tcp f) ∧
        server.acceptFunc ≠ some .throws := by
  have hending : run.ending ≠ none ↔ (tcpAccept order tcp stream).ending = .closed := by
    simp only [tcpRun] at hrun
    split at hrun
    · rename_i hclosed
      obtain rfl := Option.some.inj hrun
      exact iff_of_true (Option.some_ne_none _) hclosed
    · rename_i hthrown
      obtain rfl := Option.some.inj hrun
      refine iff_of_false (fun h => h rfl) ?_
      rw [hthrown]
      exact Ending.noConfusion
    · cases hrun
  have hreadable := hending.trans (closed_iff order tcp frames stream hwire)
  constructor
  · intro h
    obtain ⟨hclose, hreturns, haccept⟩ := returns_of_lifecycle h
    exact ⟨hclose, hreadable.mp hreturns, haccept⟩
  · rintro ⟨hclose, hall, haccept⟩
    exact lifecycle_of_returns haccept (hreadable.mpr hall) hclose

end Aquarius
