import Aquarius.Library.Transition
import Aquarius.Binary

/-!
# The Multiplexed TCP Client

Any number of `async_call` and `async_call_buffer` coroutines (`basic_client.hpp`) share one
`tcp` object (`ip/tcp.hpp`). Each registers a callback under its `src` in `buffers_`, sends
its frame and then sits in `wait(src)`, which receives from `buffer_channel_` until the value
is its own `src`. One coroutine, `query`, takes the incoming frames: `filling_buffer` invokes
the callback of the frame's `src`, erases it and posts the `src` to the channel, or posts `0`
when nobody is registered.

The channel has capacity zero and is only used with `try_send`: the value goes to the oldest
pending receiver, and is lost when there is none. A callback may suspend, so its invocation
and the rest of `filling_buffer` are two steps; an exception from the router or from a
callback, or a failed `recv`, ends `query`.

The last three fields of the state record the past: the frames received, the callbacks
invoked and the sources whose frames `filling_buffer` is done with.

## Main results

* `effect_of_clientStep`: everything a step can do, once and for all.
* `channelInv_step`: the entries of `buffers_` and the pending receivers are calls in the
  states that fit.
-/

open Decoding Transition

namespace Aquarius

/-! ### Calls -/

/-- Which function of the client was called; the callback of `async_call_buffer` is the
user's and may be empty. -/
inductive CallKind where
  | asyncCall
  | asyncCallBuffer (hasFunc : Bool)
  deriving DecidableEq, Repr

/-- Whether the registered `func` is non-empty. -/
def CallKind.hasFunc : CallKind → Bool
  | asyncCall => true
  | asyncCallBuffer hasFunc => hasFunc

/-- Whether the call returns at once when its frame could not be sent. -/
def CallKind.checksSend : CallKind → Bool
  | asyncCall => true
  | asyncCallBuffer _ => false

/-- Where a call is: in `async_send`, between that and `wait`, pending on the channel, given
the value `v` but not yet run, returned from `wait`, or returned without waiting. -/
inductive Phase where
  | sending
  | sent
  | receiving
  | resumed (v : BitVec 32)
  | returned
  | abandoned
  deriving DecidableEq, Repr

/-- The call has returned. -/
def Phase.finished : Phase → Bool
  | returned | abandoned => true
  | _ => false

/-- A call. `answered` records that `filling_buffer` has erased its callback. -/
structure Call where
  src : BitVec 32
  kind : CallKind
  phase : Phase := .sending
  answered : Bool := false
  deriving DecidableEq, Repr

/-- An invocation of the callback of a call: the frame it was for, the router read off the
payload and the buffer handed over. -/
structure Invocation where
  call : ℕ
  src : BitVec 32
  payload : Bytes
  router : Bytes
  buffer : Bytes
  deriving DecidableEq, Repr

/-- The `query` coroutine: waiting for a frame, inside the callback registered for `src`, or
over. -/
inductive Query where
  | running
  | invoking (src : BitVec 32)
  | ended
  deriving DecidableEq, Repr

/-- The client: its calls by number, `buffers_`, the receivers pending on the channel from
the oldest on, the state of `query`, and the past. -/
structure ClientState where
  calls : List Call := []
  buffers : List (BitVec 32 × ℕ) := []
  receivers : List ℕ := []
  query : Query := .running
  received : List (BitVec 32 × Bytes) := []
  invoked : List Invocation := []
  processed : List (BitVec 32) := []
  deriving DecidableEq, Repr

/-- What can happen next. -/
inductive ClientEvent where
  /-- a call registers its callback and starts sending -/
  | start (src : BitVec 32) (kind : CallKind)
  /-- `send_request` or `send_buffer` returns -/
  | sendDone (i : ℕ) (ok : Bool)
  /-- `wait` starts receiving -/
  | receive (i : ℕ)
  /-- `recv` returns a frame -/
  | frame (src : BitVec 32) (payload : Bytes)
  /-- the callback returns -/
  | funcDone
  /-- the callback throws -/
  | funcThrows
  /-- `recv` fails -/
  | recvFails
  /-- `wait` continues with the value it received -/
  | resume (i : ℕ)
  deriving DecidableEq, Repr

/-! ### The table and the channel -/

namespace ClientState

variable (s : ClientState)

/-- `buffers_.find(src)` -/
def find (src : BitVec 32) : Option ℕ := s.buffers.lookup src

/-- `buffers_.erase(iter)` -/
def erase (src : BitVec 32) : List (BitVec 32 × ℕ) := s.buffers.filter (·.1 ≠ src)

/-- `regist_resp_func`: an entry that exists is overwritten. -/
def registRespFunc (src : BitVec 32) (i : ℕ) : List (BitVec 32 × ℕ) :=
  (src, i) :: s.erase src

/-- Move call `i` to a phase. -/
def setPhase (i : ℕ) (phase : Phase) : ClientState :=
  { s with calls := s.calls.modify i fun c => { c with phase := phase } }

/-- `buffer_channel_.async_receive` by call `i` -/
def asyncReceive (i : ℕ) : ClientState :=
  { s.setPhase i .receiving with receivers := s.receivers ++ [i] }

/-- `buffer_channel_.try_send(error_code{}, v)` -/
def trySend (v : BitVec 32) : ClientState :=
  match s.receivers with
  | [] => s
  | i :: receivers => { s.setPhase i (.resumed v) with receivers := receivers }

/-- The end of `filling_buffer` for a registered `src`: erase the callback and post. -/
def complete (src : BitVec 32) (i : ℕ) : ClientState :=
  trySend { s with
    calls := s.calls.modify i fun c => { c with answered := true }
    buffers := s.erase src
    query := .running
    processed := s.processed ++ [src] } src

end ClientState

/-! ### Steps -/

open ClientState

/-- `query` with the frame `recv` returned, up to the first suspension: the router is read,
and `filling_buffer` looks up the source. A router on which reading is undefined has no
successor. -/
def queryFrame (s : ClientState) (src : BitVec 32) (payload : Bytes) : Option ClientState :=
  let s := { s with received := s.received ++ [(src, payload)] }
  match fromDatasString.run payload with
  | .error .undefined => none
  | .error _ => some { s with query := .ended }
  | .ok (router, buffer) =>
      match s.find src with
      | none => some (trySend { s with processed := s.processed ++ [src] } 0)
      | some i =>
          match s.calls[i]? with
          | none => none
          | some c =>
              if c.kind.hasFunc then
                some { s with
                  query := .invoking src
                  invoked := s.invoked ++ [⟨i, src, payload, router, buffer⟩] }
              else some (s.complete src i)

/-- One step of the client. -/
def clientStep (s : ClientState) : ClientEvent → Option ClientState
  | .start src kind =>
      some { s with
        calls := s.calls ++ [{ src := src, kind := kind }]
        buffers := s.registRespFunc src s.calls.length }
  | .sendDone i ok =>
      match s.calls[i]? with
      | none => none
      | some c =>
          if c.phase = .sending then
            some (s.setPhase i (if c.kind.checksSend && !ok then .abandoned else .sent))
          else none
  | .receive i =>
      match s.calls[i]? with
      | none => none
      | some c => if c.phase = .sent then some (s.asyncReceive i) else none
  | .frame src payload => if s.query = .running then queryFrame s src payload else none
  | .funcDone =>
      match s.query with
      | .invoking src => (s.find src).map fun i => s.complete src i
      | _ => none
  | .funcThrows =>
      match s.query with
      | .invoking _ => some { s with query := .ended }
      | _ => none
  | .recvFails => if s.query = .running then some { s with query := .ended } else none
  | .resume i =>
      match s.calls[i]? with
      | none => none
      | some c =>
          match c.phase with
          | .resumed v => some (if v = c.src then s.setPhase i .returned else s.asyncReceive i)
          | _ => none

/-! ### What a step can do -/

/-- The call whose callback a step erases: the end of `filling_buffer` for its source. -/
def completes (s : ClientState) : ClientEvent → Option ℕ
  | .frame src payload =>
      match fromDatasString.run payload, s.find src with
      | .ok _, some i => if s.calls[i]?.any (·.kind.hasFunc) then none else some i
      | _, _ => none
  | .funcDone =>
      match s.query with
      | .invoking src => s.find src
      | _ => none
  | _ => none

/-- The effects of the steps of a client, with the call whose callback is erased. -/
inductive Effect (s : ClientState) : ClientEvent → Option ℕ → ClientState → Prop
  | start (src : BitVec 32) (kind : CallKind) :
      Effect s (.start src kind) none { s with
        calls := s.calls ++ [{ src := src, kind := kind }]
        buffers := s.registRespFunc src s.calls.length }
  | sent {e : ClientEvent} {i : ℕ} {c : Call} {phase : Phase} :
      s.calls[i]? = some c → c.phase = .sending → phase = .sent ∨ phase = .abandoned →
      Effect s e none (s.setPhase i phase)
  | wait {e : ClientEvent} {i : ℕ} {c : Call} :
      s.calls[i]? = some c → c.phase = .sent ∨ (∃ v, c.phase = .resumed v ∧ v ≠ c.src) →
      Effect s e none (s.asyncReceive i)
  | returned {e : ClientEvent} {i : ℕ} {c : Call} :
      s.calls[i]? = some c → c.phase = .resumed c.src → Effect s e none (s.setPhase i .returned)
  | ended {e : ClientEvent} {received : List (BitVec 32 × Bytes)} :
      s.received ⊆ received → Effect s e none { s with received := received, query := .ended }
  | unknown {e : ClientEvent} {received : List (BitVec 32 × Bytes)} {src : BitVec 32} :
      s.received ⊆ received →
      Effect s e none
        (trySend { s with received := received, processed := s.processed ++ [src] } 0)
  | invoked {e : ClientEvent} {i : ℕ} {router buffer : Bytes} (src : BitVec 32)
      (payload : Bytes) :
      s.query = .running → s.find src = some i →
      fromDatasString.run payload = .ok (router, buffer) →
      Effect s e none { s with
        received := s.received ++ [(src, payload)]
        query := .invoking src
        invoked := s.invoked ++ [⟨i, src, payload, router, buffer⟩] }
  | completed {e : ClientEvent} {i : ℕ} {src : BitVec 32} {received : List (BitVec 32 × Bytes)} :
      s.received ⊆ received → s.query = .running ∨ s.query = .invoking src →
      s.find src = some i →
      Effect s e (some i) (ClientState.complete { s with received := received } src i)

section Inversion

variable {s s' : ClientState}

/-- The effect of a frame. -/
private theorem effect_queryFrame {src : BitVec 32} {payload : Bytes}
    (hquery : s.query = .running) (hstep : queryFrame s src payload = some s') :
    Effect s (.frame src payload) (completes s (.frame src payload)) s' := by
  have hsub : s.received ⊆ s.received ++ [(src, payload)] := List.subset_append_left _ _
  rw [queryFrame] at hstep
  simp only [completes]
  split at hstep
  · cases hstep
  · rename_i hrouter
    rw [← Option.some.inj hstep, hrouter]
    exact .ended hsub
  · rename_i router buffer hrouter
    rw [hrouter]
    split at hstep
    · rename_i hfind
      have hfind : s.find src = none := hfind
      rw [← Option.some.inj hstep, hfind]
      exact .unknown hsub
    · rename_i i hfind
      have hfind : s.find src = some i := hfind
      split at hstep
      · cases hstep
      · rename_i c hc
        have hc : s.calls[i]? = some c := hc
        simp only [hfind, hc, Option.any_some]
        split at hstep
        · rename_i hfunc
          rw [← Option.some.inj hstep, if_pos hfunc]
          exact .invoked src payload hquery hfind hrouter
        · rename_i hfunc
          rw [← Option.some.inj hstep, if_neg hfunc]
          exact .completed hsub (Or.inl hquery) hfind

/-- A send returns to the call that made it. -/
theorem sendDone_cases {i : ℕ} {ok : Bool} (hstep : clientStep s (.sendDone i ok) = some s') :
    ∃ c, s.calls[i]? = some c ∧ c.phase = .sending ∧
      s' = s.setPhase i (if c.kind.checksSend && !ok then .abandoned else .sent) := by
  simp only [clientStep] at hstep
  split at hstep
  · cases hstep
  · rename_i c hc
    split at hstep
    · rename_i hphase
      exact ⟨c, hc, hphase, (Option.some.inj hstep).symm⟩
    · cases hstep

/-- `wait` starts receiving for a call that has been sent. -/
theorem receive_cases {i : ℕ} (hstep : clientStep s (.receive i) = some s') :
    ∃ c, s.calls[i]? = some c ∧ c.phase = .sent ∧ s' = s.asyncReceive i := by
  simp only [clientStep] at hstep
  split at hstep
  · cases hstep
  · rename_i c hc
    split at hstep
    · rename_i hphase
      exact ⟨c, hc, hphase, (Option.some.inj hstep).symm⟩
    · cases hstep

/-- A callback returns to `filling_buffer`, which looks its source up once more. -/
theorem funcDone_cases (hstep : clientStep s .funcDone = some s') :
    ∃ src i, s.query = .invoking src ∧ s.find src = some i ∧ s' = s.complete src i := by
  simp only [clientStep] at hstep
  split at hstep
  · rename_i src hquery
    obtain ⟨i, hfind, rfl⟩ := Option.map_eq_some_iff.mp hstep
    exact ⟨src, i, hquery, hfind, rfl⟩
  · cases hstep

/-- `wait` goes on with the value it was given: it returns, or receives again. -/
theorem resume_cases {i : ℕ} (hstep : clientStep s (.resume i) = some s') :
    ∃ c v, s.calls[i]? = some c ∧ c.phase = .resumed v ∧
      s' = if v = c.src then s.setPhase i .returned else s.asyncReceive i := by
  simp only [clientStep] at hstep
  split at hstep
  · cases hstep
  · rename_i c hc
    split at hstep
    · rename_i v hphase
      exact ⟨c, v, hc, hphase, (Option.some.inj hstep).symm⟩
    · cases hstep

/-- **Inversion**: every step has one of the effects. -/
theorem effect_of_clientStep {e : ClientEvent} (hstep : clientStep s e = some s') :
    Effect s e (completes s e) s' := by
  cases e with
  | start src kind =>
      rw [← Option.some.inj hstep]
      exact .start src kind
  | sendDone i ok =>
      obtain ⟨c, hc, hphase, rfl⟩ := sendDone_cases hstep
      refine .sent hc hphase ?_
      split
      · exact Or.inr rfl
      · exact Or.inl rfl
  | receive i =>
      obtain ⟨c, hc, hphase, rfl⟩ := receive_cases hstep
      exact .wait hc (Or.inl hphase)
  | frame src payload =>
      simp only [clientStep] at hstep
      split at hstep
      · rename_i hquery
        exact effect_queryFrame hquery hstep
      · cases hstep
  | funcDone =>
      obtain ⟨src, i, hquery, hfind, rfl⟩ := funcDone_cases hstep
      simp only [completes, hquery, hfind]
      exact .completed (List.Subset.refl _) (Or.inr hquery) hfind
  | funcThrows =>
      simp only [clientStep] at hstep
      split at hstep
      · rw [← Option.some.inj hstep]
        exact .ended (List.Subset.refl _)
      · cases hstep
  | recvFails =>
      simp only [clientStep] at hstep
      split at hstep
      · rw [← Option.some.inj hstep]
        exact .ended (List.Subset.refl _)
      · cases hstep
  | resume i =>
      obtain ⟨c, v, hc, hphase, rfl⟩ := resume_cases hstep
      split
      · rename_i hv
        exact .returned hc (by rw [hphase, hv])
      · rename_i hv
        exact .wait hc (Or.inr ⟨v, hphase, hv⟩)

end Inversion

/-! ### What the operations change -/

/-- Looking up in a table from which a key has been removed. -/
private theorem lookup_filter_ne (buffers : List (BitVec 32 × ℕ)) (src k : BitVec 32) :
    (buffers.filter (·.1 ≠ src)).lookup k = if k = src then none else buffers.lookup k := by
  induction buffers with
  | nil => simp
  | cons entry buffers ih =>
      obtain ⟨key, i⟩ := entry
      by_cases hkey : key = src
      · subst hkey
        rw [List.filter_cons_of_neg (by simp), ih, List.lookup_cons]
        by_cases hk : k = key
        · rw [if_pos hk, if_pos hk]
        · rw [if_neg hk, if_neg hk]
          simp only [beq_false_of_ne hk]
      · rw [List.filter_cons_of_pos (by simpa using hkey), List.lookup_cons, ih, List.lookup_cons]
        by_cases hk : k = key
        · subst hk
          simp only [beq_self_eq_true, if_neg hkey]
        · simp only [beq_false_of_ne hk]

section Operations

variable {s : ClientState} {i j : ℕ} {c : Call} {src : BitVec 32}

/-- The table without an entry. -/
theorem lookup_erase (k : BitVec 32) :
    (s.erase src).lookup k = if k = src then none else s.find k :=
  lookup_filter_ne s.buffers src k

/-- The table with an entry set. -/
theorem lookup_registRespFunc (k : BitVec 32) :
    (s.registRespFunc src i).lookup k = if k = src then some i else s.find k := by
  rw [registRespFunc, List.lookup_cons, lookup_erase]
  by_cases hk : k = src
  · subst hk
    simp only [beq_self_eq_true, if_true]
  · simp only [beq_false_of_ne hk, if_neg hk]

/-- The calls after a value has been posted. -/
theorem getElem?_trySend {v : BitVec 32} {d : Call} :
    (s.trySend v).calls[j]? = some d ↔
      ∃ c, s.calls[j]? = some c ∧
        d = if s.receivers.head? = some j then { c with phase := .resumed v } else c := by
  rw [trySend]
  split
  · rename_i hreceivers
    rw [hreceivers, List.head?_nil]
    simp
  · rename_i i receivers hreceivers
    rw [hreceivers, List.head?_cons]
    simp only [Option.some.injEq]
    exact getElem?_modify_eq_some

/-- Posting a value changes nothing but the calls and the receivers. -/
theorem trySend_eq (s : ClientState) (v : BitVec 32) :
    s.trySend v =
      { s with calls := (s.trySend v).calls, receivers := (s.trySend v).receivers } := by
  rw [trySend]
  split <;> rfl

/-- The calls after `filling_buffer` is done with the source of call `i`. -/
theorem getElem?_complete {d : Call} :
    (s.complete src i).calls[j]? = some d ↔
      ∃ c, s.calls[j]? = some c ∧
        d = if s.receivers.head? = some j
          then { (if i = j then { c with answered := true } else c) with phase := .resumed src }
          else if i = j then { c with answered := true } else c := by
  rw [complete, getElem?_trySend]
  constructor
  · rintro ⟨c, hc, rfl⟩
    obtain ⟨c₀, hc₀, rfl⟩ := getElem?_modify_eq_some.mp hc
    exact ⟨c₀, hc₀, rfl⟩
  · rintro ⟨c, hc, rfl⟩
    exact ⟨_, getElem?_modify_eq_some.mpr ⟨c, hc, rfl⟩, rfl⟩

end Operations

/-! ### The table and the channel name calls -/

/-- An entry of the table is the callback of a call that is not answered yet, and the pending
receivers are calls in `async_receive`, each pending once. -/
structure ChannelInv (s : ClientState) : Prop where
  registered : ∀ src i, s.find src = some i →
    ∃ c, s.calls[i]? = some c ∧ c.src = src ∧ c.answered = false
  nodup : s.receivers.Nodup
  receiving : ∀ i ∈ s.receivers, ∃ c, s.calls[i]? = some c ∧ c.phase = .receiving

namespace ChannelInv

variable {s : ClientState} {i : ℕ} {c : Call} {src : BitVec 32}

/-- A call in another phase is not pending. -/
theorem not_mem_receivers (h : ChannelInv s) (hc : s.calls[i]? = some c)
    (hphase : c.phase ≠ .receiving) : i ∉ s.receivers := by
  intro hi
  obtain ⟨d, hd, hreceiving⟩ := h.receiving i hi
  obtain rfl : c = d := Option.some.inj (by rw [← hc, hd])
  exact hphase hreceiving

/-- A call that is not pending changes its phase. -/
theorem setPhase (h : ChannelInv s) (hpending : i ∉ s.receivers) (phase : Phase) :
    ChannelInv (s.setPhase i phase) := by
  refine { h with registered := ?_, receiving := ?_ }
  · intro src j hj
    obtain ⟨d, hd, hsrc⟩ := h.registered src j hj
    refine ⟨_, getElem?_modify_eq_some.mpr ⟨d, hd, rfl⟩, ?_⟩
    split <;> exact hsrc
  · intro j hj
    obtain ⟨d, hd, hphase⟩ := h.receiving j hj
    have hne : i ≠ j := fun hij => hpending (hij ▸ hj)
    exact ⟨d, getElem?_modify_eq_some.mpr ⟨d, hd, (if_neg hne).symm⟩, hphase⟩

/-- A call goes to the end of the channel. -/
theorem asyncReceive (h : ChannelInv s) (hc : s.calls[i]? = some c)
    (hphase : c.phase ≠ .receiving) : ChannelInv (s.asyncReceive i) := by
  have hpending := h.not_mem_receivers hc hphase
  have hset := h.setPhase hpending .receiving
  refine { hset with nodup := ?_, receiving := ?_ }
  · refine List.nodup_append.mpr ⟨h.nodup, List.pairwise_singleton _ i, ?_⟩
    rintro a ha b hb rfl
    exact hpending (List.mem_singleton.mp hb ▸ ha)
  · intro j hj
    rcases List.mem_append.mp hj with hj | hj
    · exact hset.receiving j hj
    · obtain rfl := List.mem_singleton.mp hj
      exact ⟨_, getElem?_modify_eq_some.mpr ⟨c, hc, rfl⟩, by rw [if_pos rfl]⟩

/-- The oldest receiver takes a value. -/
theorem trySend (h : ChannelInv s) (v : BitVec 32) : ChannelInv (s.trySend v) := by
  rw [ClientState.trySend]
  split
  · exact h
  · rename_i j receivers hreceivers
    have hnodup := h.nodup
    rw [hreceivers, List.nodup_cons] at hnodup
    have hpopped : ChannelInv { s with receivers := receivers } :=
      { h with
        nodup := hnodup.2
        receiving := fun k hk =>
          h.receiving k (by rw [hreceivers]; exact List.mem_cons_of_mem _ hk) }
    exact hpopped.setPhase hnodup.1 _

/-- Everything `complete` does but posting the source. -/
theorem erased (h : ChannelInv s) (hfind : s.find src = some i) :
    ChannelInv { s with
      calls := s.calls.modify i fun c => { c with answered := true }
      buffers := s.erase src
      query := .running
      processed := s.processed ++ [src] } := by
  obtain ⟨c, hc, hsrc, -⟩ := h.registered src i hfind
  refine { h with registered := ?_, receiving := ?_ }
  · intro k j hj
    obtain hj := (lookup_erase k).symm.trans hj
    by_cases hk : k = src
    · rw [if_pos hk] at hj
      cases hj
    · rw [if_neg hk] at hj
      obtain ⟨d, hd, hdsrc, hanswered⟩ := h.registered k j hj
      have hij : i ≠ j := by
        rintro rfl
        obtain rfl : c = d := Option.some.inj (by rw [← hc, hd])
        exact hk (hdsrc.symm.trans hsrc)
      exact ⟨d, getElem?_modify_eq_some.mpr ⟨d, hd, (if_neg hij).symm⟩, hdsrc, hanswered⟩
  · intro j hj
    obtain ⟨d, hd, hphase⟩ := h.receiving j hj
    refine ⟨_, getElem?_modify_eq_some.mpr ⟨d, hd, rfl⟩, ?_⟩
    split <;> exact hphase

/-- The end of `filling_buffer`. -/
theorem complete (h : ChannelInv s) (hfind : s.find src = some i) :
    ChannelInv (s.complete src i) :=
  (h.erased hfind).trySend src

/-- A new call is registered. -/
theorem start (h : ChannelInv s) (src : BitVec 32) (kind : CallKind) :
    ChannelInv { s with
      calls := s.calls ++ [{ src := src, kind := kind }]
      buffers := s.registRespFunc src s.calls.length } := by
  refine { h with registered := ?_, receiving := ?_ }
  · intro k j hj
    obtain hj := (lookup_registRespFunc k).symm.trans hj
    by_cases hk : k = src
    · rw [if_pos hk] at hj
      obtain rfl := Option.some.inj hj
      exact ⟨_, List.getElem?_concat_length, hk.symm, rfl⟩
    · rw [if_neg hk] at hj
      obtain ⟨d, hd, hdsrc⟩ := h.registered k j hj
      exact ⟨d, getElem?_concat_of_some hd _, hdsrc⟩
  · intro j hj
    obtain ⟨d, hd, hphase⟩ := h.receiving j hj
    exact ⟨d, getElem?_concat_of_some hd _, hphase⟩

end ChannelInv

/-- **The step lemma** of the table and the channel. -/
theorem channelInv_step {s s' : ClientState} {e : ClientEvent} (h : ChannelInv s)
    (hstep : clientStep s e = some s') : ChannelInv s' := by
  have heffect := effect_of_clientStep hstep
  generalize completes s e = erased at heffect
  cases heffect with
  | start src kind => exact h.start src kind
  | sent hc hphase _ => exact h.setPhase (h.not_mem_receivers hc (by rw [hphase]; simp)) _
  | wait hc hphase =>
      refine h.asyncReceive hc ?_
      rcases hphase with hphase | ⟨v, hphase, -⟩ <;> rw [hphase] <;> simp
  | returned hc hphase => exact h.setPhase (h.not_mem_receivers hc (by rw [hphase]; simp)) _
  | ended _ => exact { h with }
  | unknown _ =>
      refine ChannelInv.trySend ?_ 0
      exact { h with }
  | invoked src payload _ _ _ => exact { h with }
  | completed _ _ hfind =>
      refine ChannelInv.complete ?_ hfind
      exact { h with }

/-- The client starts without calls. -/
theorem channelInv_init : ChannelInv {} where
  registered src i hfind := by cases hfind
  nodup := List.nodup_nil
  receiving i hi := by cases hi

end Aquarius
