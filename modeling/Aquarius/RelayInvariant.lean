import Aquarius.Relay

/-!
# The Invariant of the Relay

A session that is in `complete()` depends on the connection its call is on: on the callback
registered there, which has captured the session and its `src`, on the notification for the call,
and on the `query` that takes the answer. `RelayInv` says that all of this is there for every such
session. The step lemma goes by what a step of a client leaves as it is (a call keeps its source, at
most one is sending, `query` is there unless the step ends it), and by what a step of the relay
does, one inversion lemma for each event that does more than one thing.

## Main results

* `instanceFrame_cases`, `clientFrame_cases`: what comes of a frame.
* `relayInv_step`: **the step lemma**: a step that hinders no frame and no answer keeps the
  invariant.
-/

open Decoding Transition

namespace Aquarius

/-! ### What a step of a client leaves -/

section Client

variable {s s' : ClientState} {e : ClientEvent}

/-- A call keeps its source and its kind. -/
theorem call_of_clientStep {i : ℕ} {c : Call} (hstep : clientStep s e = some s')
    (hc : s.calls[i]? = some c) :
    ∃ c', s'.calls[i]? = some c' ∧ c'.src = c.src ∧ c'.kind = c.kind := by
  have heffect := effect_of_clientStep hstep
  generalize completes s e = erased at heffect
  cases heffect with
  | start src kind => exact ⟨c, getElem?_concat_of_some hc _, rfl, rfl⟩
  | sent _ _ _ | wait _ _ | returned _ _ =>
      refine ⟨_, getElem?_modify_eq_some.mpr ⟨c, hc, rfl⟩, ?_⟩
      split <;> exact ⟨rfl, rfl⟩
  | ended _ => exact ⟨c, hc, rfl, rfl⟩
  | unknown _ =>
      refine ⟨_, getElem?_trySend.mpr ⟨c, hc, rfl⟩, ?_⟩
      split <;> exact ⟨rfl, rfl⟩
  | invoked _ _ _ _ _ => exact ⟨c, hc, rfl, rfl⟩
  | completed _ _ _ =>
      refine ⟨_, getElem?_complete.mpr ⟨c, hc, rfl⟩, ?_⟩
      split <;> split <;> exact ⟨rfl, rfl⟩

/-- A call that is sending was sending before, or has just started. -/
theorem sending_of_clientStep {i : ℕ} {c' : Call} (hstep : clientStep s e = some s')
    (hc' : s'.calls[i]? = some c') (hsending : c'.phase = .sending) :
    (∃ c, s.calls[i]? = some c ∧ c.phase = .sending) ∨
      (i = s.calls.length ∧ ∃ src kind, e = .start src kind) := by
  have heffect := effect_of_clientStep hstep
  generalize completes s e = erased at heffect
  cases heffect with
  | start src kind =>
      rcases getElem?_concat_cases hc' with ⟨hi, -⟩ | hold
      · exact Or.inr ⟨hi, src, kind, rfl⟩
      · exact Or.inl ⟨c', hold, hsending⟩
  | sent hc hphase hnext =>
      obtain ⟨c, hold, rfl⟩ := getElem?_modify_eq_some.mp hc'
      refine Or.inl ⟨c, hold, ?_⟩
      split at hsending
      · rcases hnext with rfl | rfl <;> cases hsending
      · exact hsending
  | wait _ _ | returned _ _ =>
      obtain ⟨c, hold, rfl⟩ := getElem?_modify_eq_some.mp hc'
      refine Or.inl ⟨c, hold, ?_⟩
      split at hsending
      · cases hsending
      · exact hsending
  | ended _ => exact Or.inl ⟨c', hc', hsending⟩
  | unknown _ =>
      obtain ⟨c, hold, rfl⟩ := getElem?_trySend.mp hc'
      refine Or.inl ⟨c, hold, ?_⟩
      split at hsending
      · cases hsending
      · exact hsending
  | invoked _ _ _ _ _ => exact Or.inl ⟨c', hc', hsending⟩
  | completed _ _ _ =>
      obtain ⟨c, hold, rfl⟩ := getElem?_complete.mp hc'
      refine Or.inl ⟨c, hold, ?_⟩
      split at hsending
      · cases hsending
      · split at hsending <;> exact hsending

/-- A call that has not returned after a step had not returned before, or has just started. -/
theorem unfinished_of_clientStep {i : ℕ} {c' : Call} (hchannel : ChannelInv s)
    (hstep : clientStep s e = some s') (hc' : s'.calls[i]? = some c')
    (hunfinished : c'.phase.finished = false) :
    (∃ c, s.calls[i]? = some c ∧ c.src = c'.src ∧ c.phase.finished = false) ∨
      ∃ kind, e = .start c'.src kind := by
  have hhead {c : Call} (hi : s.receivers.head? = some i) (hc : s.calls[i]? = some c) :
      c.phase.finished = false := by
    obtain ⟨d, hd, hphase⟩ := hchannel.receiving i (List.mem_of_head? hi)
    obtain rfl : c = d := Option.some.inj (hc.symm.trans hd)
    rw [hphase]
    rfl
  have heffect := effect_of_clientStep hstep
  generalize completes s e = erased at heffect
  cases heffect with
  | start src kind =>
      rcases getElem?_concat_cases hc' with ⟨-, rfl⟩ | hold
      · exact Or.inr ⟨kind, rfl⟩
      · exact Or.inl ⟨c', hold, rfl, hunfinished⟩
  | @sent _ j d phase hd hsending _ =>
      obtain ⟨c, hc, rfl⟩ := getElem?_modify_eq_some.mp hc'
      split at hunfinished
      · rename_i hij
        obtain rfl : c = d := Option.some.inj (by rw [← hc, ← hij, hd])
        exact Or.inl ⟨c, hc, by rw [if_pos hij], by rw [hsending]; rfl⟩
      · rename_i hij
        exact Or.inl ⟨c, hc, by rw [if_neg hij], hunfinished⟩
  | @wait _ j d hd hphase =>
      obtain ⟨c, hc, rfl⟩ := getElem?_modify_eq_some.mp hc'
      split at hunfinished
      · rename_i hij
        obtain rfl : c = d := Option.some.inj (by rw [← hc, ← hij, hd])
        refine Or.inl ⟨c, hc, by rw [if_pos hij], ?_⟩
        rcases hphase with hphase | ⟨v, hphase, -⟩ <;> rw [hphase] <;> rfl
      · rename_i hij
        exact Or.inl ⟨c, hc, by rw [if_neg hij], hunfinished⟩
  | returned hd hphase =>
      obtain ⟨c, hc, rfl⟩ := getElem?_modify_eq_some.mp hc'
      split at hunfinished
      · cases hunfinished
      · rename_i hij
        exact Or.inl ⟨c, hc, by rw [if_neg hij], hunfinished⟩
  | ended _ => exact Or.inl ⟨c', hc', rfl, hunfinished⟩
  | unknown _ =>
      obtain ⟨c, hc, rfl⟩ := getElem?_trySend.mp hc'
      split at hunfinished
      · rename_i hi
        exact Or.inl ⟨c, hc, by rw [if_pos hi], hhead hi hc⟩
      · rename_i hi
        exact Or.inl ⟨c, hc, by rw [if_neg hi], hunfinished⟩
  | invoked _ _ _ _ _ => exact Or.inl ⟨c', hc', rfl, hunfinished⟩
  | completed _ _ _ =>
      obtain ⟨c, hc, rfl⟩ := getElem?_complete.mp hc'
      by_cases hi : s.receivers.head? = some i
      · refine Or.inl ⟨c, hc, ?_, hhead hi hc⟩
        rw [if_pos hi]
        split <;> rfl
      · rw [if_neg hi] at hunfinished ⊢
        refine Or.inl ⟨c, hc, ?_, ?_⟩
        · split <;> rfl
        · split at hunfinished <;> exact hunfinished

/-- A source that is fresh before a step that starts no call is fresh behind it. -/
theorem fresh_of_clientStep {src : BitVec 32} {kind : CallKind} (hchannel : ChannelInv s)
    (hstep : clientStep s e = some s') (hstarts : ∀ src kind, e ≠ .start src kind)
    (hfresh : Fresh s (.start src kind)) : Fresh s' (.start src kind) := by
  refine ⟨hfresh.1, fun c' hmem hunfinished => ?_⟩
  obtain ⟨i, hc'⟩ := List.mem_iff_getElem?.mp hmem
  rcases unfinished_of_clientStep hchannel hstep hc' hunfinished with
    ⟨c, hc, hsrc, hold⟩ | ⟨kind', he⟩
  · rw [← hsrc]
    exact hfresh.2 c (List.mem_of_getElem? hc) hold
  · exact absurd he (hstarts _ _)

/-- At most one call is sending. -/
def Alone (client : ClientState) : Prop :=
  ∀ (i j : ℕ) (c c' : Call), client.calls[i]? = some c → client.calls[j]? = some c' →
    c.phase = .sending → c'.phase = .sending → i = j

/-- It stays so when a call starts only while none is sending. -/
theorem Alone.step (h : Alone s)
    (hsilent : ∀ src kind, e = .start src kind → ∀ c ∈ s.calls, c.phase ≠ .sending)
    (hstep : clientStep s e = some s') : Alone s' := by
  intro i j c c' hc hc' hsending hsending'
  rcases sending_of_clientStep hstep hc hsending with ⟨d, hd, hold⟩ | ⟨hi, src, kind, he⟩
  · rcases sending_of_clientStep hstep hc' hsending' with ⟨d', hd', hold'⟩ | ⟨-, src, kind, he⟩
    · exact h i j d d' hd hd' hold hold'
    · exact absurd hold (hsilent src kind he d (List.mem_of_getElem? hd))
  · rcases sending_of_clientStep hstep hc' hsending' with ⟨d', hd', hold'⟩ | ⟨hj, -⟩
    · exact absurd hold' (hsilent src kind he d' (List.mem_of_getElem? hd'))
    · exact hi.trans hj.symm

/-- The steps that end `query`: a frame with a router that cannot be read, a callback that throws,
and a failure of `recv`. -/
def EndsQuery : ClientEvent → Prop
  | .frame _ payload => (fromDatasString.run payload).isOk = false
  | .funcThrows | .recvFails => True
  | .start .. | .sendDone .. | .receive _ | .funcDone | .resume _ => False

/-- Posting a value leaves `query` where it is. -/
private theorem query_trySend (s : ClientState) (v : BitVec 32) :
    (s.trySend v).query = s.query := by
  rw [trySend_eq]

/-- `query` is over only when it was before, or the step ends it. -/
theorem query_of_clientStep (hstep : clientStep s e = some s') (hended : s'.query = .ended) :
    s.query = .ended ∨ EndsQuery e := by
  cases e with
  | start src kind =>
      obtain rfl := Option.some.inj hstep
      exact Or.inl hended
  | sendDone i ok =>
      obtain ⟨c, -, -, rfl⟩ := sendDone_cases hstep
      exact Or.inl hended
  | receive i =>
      obtain ⟨c, -, -, rfl⟩ := receive_cases hstep
      exact Or.inl hended
  | frame src payload =>
      cases hrun : fromDatasString.run payload with
      | error fault =>
          refine Or.inr ?_
          rw [EndsQuery, hrun]
          rfl
      | ok result =>
          rw [clientStep] at hstep
          by_cases hquery : s.query = .running
          · rw [if_pos hquery, queryFrame] at hstep
            simp only [hrun] at hstep
            split at hstep
            · obtain rfl := Option.some.inj hstep
              rw [query_trySend] at hended
              exact Or.inl hended
            · split at hstep
              · cases hstep
              · split at hstep
                · obtain rfl := Option.some.inj hstep
                  cases hended
                · obtain rfl := Option.some.inj hstep
                  rw [ClientState.complete, query_trySend] at hended
                  cases hended
          · rw [if_neg hquery] at hstep
            cases hstep
  | funcDone =>
      obtain ⟨src, i, -, -, rfl⟩ := funcDone_cases hstep
      rw [ClientState.complete, query_trySend] at hended
      cases hended
  | funcThrows | recvFails => exact Or.inr trivial
  | resume i =>
      obtain ⟨c, v, -, -, rfl⟩ := resume_cases hstep
      refine Or.inl ?_
      split at hended <;> exact hended

/-- A frame for a call that waits with a callback invokes this. -/
theorem clientStep_frame {i : ℕ} {c : Call} {src : BitVec 32} {payload router buffer : Bytes}
    (hquery : s.query = .running) (hrun : fromDatasString.run payload = .ok (router, buffer))
    (hfind : s.find src = some i) (hc : s.calls[i]? = some c) (hfunc : c.kind.hasFunc = true) :
    clientStep s (.frame src payload) = some { s with
      received := s.received ++ [(src, payload)]
      query := .invoking src
      invoked := s.invoked ++ [⟨i, src, payload, router, buffer⟩] } := by
  have hfind' : ClientState.find { s with received := s.received ++ [(src, payload)] } src =
      some i := hfind
  rw [clientStep, if_pos hquery, queryFrame]
  simp only [hrun, hfind', hc, if_pos hfunc]

/-- What the table, the channel and the notifications of a client keep. -/
structure Sound (client : ClientState) : Prop where
  inv : ClientInv client
  channel : ChannelInv client
  noneLost : NoneLost client

/-- A step with a fresh source that completes an answer only for the oldest receiver keeps
them. -/
theorem Sound.step (h : Sound s) (hfresh : Fresh s e) (hwaits : HeadWaits s e)
    (hstep : clientStep s e = some s') : Sound s' where
  inv := clientInv_step h.inv h.channel hfresh hstep
  channel := channelInv_step h.channel hstep
  noneLost := noneLost_step h.noneLost h.channel hwaits hstep

/-- They hold of a new client. -/
theorem sound_init : Sound {} where
  inv := clientInv_init
  channel := channelInv_init
  noneLost _ _ hc := absurd hc (by simp)

end Client

/-! ### What a step of the relay does -/

section Inversion

variable {order : ByteOrder} {process : Process} {s s' : RelayState}

/-- A loop that is in `complete()` after a step was there before, and its call has not
returned. -/
theorem completing_of_goOn {phase : RelayPhase} {client : ClientState} {src : BitVec 32}
    {conn conn' call : ℕ} (h : phase.goOn conn client = .completing src conn' call) :
    phase = .completing src conn' call ∧
      ¬ (conn' = conn ∧ client.calls[call]?.any (·.phase.finished) = true) := by
  cases phase with
  | receiving | ended => cases h
  | completing src₀ conn₀ call₀ =>
      rw [RelayPhase.goOn] at h
      split at h
      · cases h
      · rename_i hopen
        obtain ⟨rfl, rfl, rfl⟩ := RelayPhase.completing.inj h
        exact ⟨rfl, hopen⟩

/-- A handler is spawned, for the session if there is one, or a call starts. -/
theorem complete_cases {relayer : Relayer} {d : TcpDispatch} {newSrc : BitVec 32}
    (h : s.complete order relayer d newSrc = some s') :
    s' = s ∨
      (∃ n, relayer = .session n ∧
        s' = { s with handling := Function.update s.handling n (s.handling n + 1) }) ∨
      ∃ conn client, s.bound d.router = some conn ∧
        clientStep (s.conns conn) (.start newSrc (.asyncCallBuffer true)) = some client ∧
        s' = { s with
          relayers := Function.update s.relayers relayer
            (.completing d.src conn (s.conns conn).calls.length)
          conns := Function.update s.conns conn client
          callers := Function.update s.callers (conn, (s.conns conn).calls.length)
            (some ⟨relayer, d.src, (sendBuffer newSrc d.buffer d.router).asyncSend order⟩) } := by
  unfold RelayState.complete at h
  cases hbound : s.bound d.router with
  | none =>
      rw [hbound] at h
      cases relayer with
      | session n => exact Or.inr (Or.inl ⟨n, rfl, (Option.some.inj h).symm⟩)
      | query conn => exact Or.inl (Option.some.inj h).symm
  | some conn =>
      rw [hbound] at h
      obtain ⟨client, hclient, rfl⟩ := Option.map_eq_some_iff.mp h
      exact Or.inr (Or.inr ⟨conn, client, rfl, hclient, rfl⟩)

/-- A payload that is handed on names the connection its router is bound to. -/
theorem target_of_tcpTurn {server : TcpServer} {src : BitVec 32} {payload : Bytes}
    {d : TcpDispatch} (h : tcpTurn server src payload = .ok (some d)) :
    s.target payload = s.bound d.router := by
  rw [tcpTurn] at h
  rw [RelayState.target]
  cases hrun : fromDatasString.run payload with
  | error fault =>
      rw [hrun] at h
      cases fault <;> cases h
  | ok result =>
      rw [hrun] at h
      simp only at h
      split at h
      · cases h
      · split at h
        · cases h
        · cases h
        · split at h
          · cases h
          · obtain rfl := Option.some.inj (Except.ok.inj h)
            rfl

/-- A router that cannot be read is an exception, or undefined. -/
theorem tcpTurn_of_not_reads (s : RelayState) (src : BitVec 32) {payload : Bytes}
    (h : process.reads payload = false) :
    tcpTurn (s.server process) src payload = .error .thrown ∨
      fromDatasString.run payload = .error .undefined := by
  rw [Process.reads] at h
  rw [tcpTurn]
  cases hrun : fromDatasString.run payload with
  | error fault =>
      cases fault with
      | undefined => exact Or.inr rfl
      | _ => exact Or.inl rfl
  | ok result =>
      rw [hrun] at h
      exact Or.inl (if_pos h)

/-- Otherwise there is no exception. -/
theorem tcpTurn_ne_thrown {src : BitVec 32} {payload : Bytes} (h : process.reads payload = true) :
    tcpTurn (s.server process) src payload ≠ .error .thrown := by
  rw [Process.reads] at h
  rw [tcpTurn]
  cases hrun : fromDatasString.run payload with
  | error fault =>
      rw [hrun] at h
      cases h
  | ok result =>
      rw [hrun] at h
      have hallocates : ¬ (s.server process).allocates result.1.length = false := by
        rw [show (s.server process).allocates result.1.length = true from h]
        exact Bool.noConfusion
      simp only [if_neg hallocates]
      intro hturn
      split at hturn
      · cases hturn
      · cases hturn
      · split at hturn <;> cases hturn

/-- A frame of a client is relayed, spawns a handler or is passed over, or ends its session. -/
theorem clientFrame_cases {n : ℕ} {src newSrc : BitVec 32} {payload : Bytes}
    (h : relayStep order process s (.clientFrame n src payload newSrc) = some s') :
    s.relayers (.session n) = .receiving ∧
      (s' = { s with relayers := Function.update s.relayers (.session n) .ended } ∨ s' = s ∨
        ∃ d, s.target payload = s.bound d.router ∧
          s.complete order (.session n) d newSrc = some s') := by
  rw [relayStep] at h
  split at h
  · rename_i hphase
    refine ⟨hphase, ?_⟩
    split at h
    · cases h
    · exact Or.inl (Option.some.inj h).symm
    · exact Or.inr (Or.inl (Option.some.inj h).symm)
    · rename_i d hturn
      exact Or.inr (Or.inr ⟨d, target_of_tcpTurn hturn, h⟩)
  · cases h

/-- A frame of an instance whose router is undefined has no successor. -/
private theorem connectionStep_undefined {conn : ℕ} {src : BitVec 32} {payload : Bytes}
    (hrun : fromDatasString.run payload = .error .undefined) :
    s.connectionStep order conn (.frame src payload) = none := by
  rw [RelayState.connectionStep, clientStep, queryFrame, hrun]
  split <;> rfl

/-- A frame of an instance ends `query`, or is a step of the client on its connection, and is
handed on only when nobody waits for it. -/
theorem instanceFrame_cases {conn : ℕ} {src newSrc : BitVec 32} {payload : Bytes}
    (h : relayStep order process s (.instanceFrame conn src payload newSrc) = some s') :
    (process.reads payload = false ∧ s.connectionStep order conn .recvFails = some s') ∨
      (process.reads payload = true ∧
        ∃ s₁, s.connectionStep order conn (.frame src payload) = some s₁ ∧
          (s' = s₁ ∨ ∃ d, (s.conns conn).find src = none ∧ s.target payload = s.bound d.router ∧
            s₁.complete order (.query conn) d newSrc = some s')) := by
  rw [relayStep] at h
  split at h
  · cases hreads : process.reads payload with
    | false =>
        rcases tcpTurn_of_not_reads s src hreads with hthrown | hrun
        · rw [hthrown] at h
          exact Or.inl ⟨rfl, h⟩
        · have hturn : tcpTurn (s.server process) src payload = .error .undefined := by
            rw [tcpTurn, hrun]
          rw [hturn, connectionStep_undefined hrun] at h
          cases hfind : (s.conns conn).find src <;> rw [hfind] at h <;> cases h
    | true =>
        refine Or.inr ⟨rfl, ?_⟩
        split at h
        · rename_i hthrown
          exact absurd hthrown (tcpTurn_ne_thrown hreads)
        · cases h
        · rename_i d hturn hfind
          obtain ⟨s₁, hconnection, hcomplete⟩ := Option.bind_eq_some_iff.mp h
          exact ⟨s₁, hconnection, Or.inr ⟨d, hfind, target_of_tcpTurn hturn, hcomplete⟩⟩
        · exact ⟨s', h, Or.inl rfl⟩
  · cases h

end Inversion

/-! ### The invariant -/

/-- A session in `complete()`: the callback of its call has captured the session and the source of
the request, the call has not returned, the `query` it depends on is there, and no handler is at
work for it. -/
structure Waiting (s : RelayState) (n : ℕ) (src : BitVec 32) (conn call : ℕ) : Prop where
  caller : ∃ frame, s.callers (conn, call) = some ⟨.session n, src, frame⟩
  open' : ∃ c, (s.conns conn).calls[call]? = some c ∧ c.kind = .asyncCallBuffer true ∧
    c.phase.finished = false
  alive : (s.conns conn).query ≠ .ended
  alone : s.handling n = 0

/-- A session goes on waiting when its call, its connection and its handlers stay as they are. -/
theorem Waiting.of_eq {s s' : RelayState} {n : ℕ} {src : BitVec 32} {conn call : ℕ}
    (h : Waiting s n src conn call)
    (hcallers : s'.callers (conn, call) = s.callers (conn, call))
    (hcalls : ∀ c, (s.conns conn).calls[call]? = some c → (s'.conns conn).calls[call]? = some c)
    (hquery : (s'.conns conn).query = (s.conns conn).query)
    (hhandling : s'.handling n = s.handling n) : Waiting s' n src conn call where
  caller := by
    obtain ⟨frame, hframe⟩ := h.caller
    exact ⟨frame, hcallers.trans hframe⟩
  open' := by
    obtain ⟨c, hc, hopen⟩ := h.open'
    exact ⟨c, hcalls c hc, hopen⟩
  alive := by
    rw [hquery]
    exact h.alive
  alone := hhandling.trans h.alone

/-- The invariant of the relay. -/
structure RelayInv (s : RelayState) : Prop where
  sound : ∀ conn, Sound (s.conns conn)
  alone : ∀ conn, Alone (s.conns conn)
  callers : ∀ key caller, s.callers key = some caller → ∃ n, caller.relayer = .session n
  query : ∀ conn, s.relayers (.query conn) = .receiving
  waiting : ∀ n src conn call, s.relayers (.session n) = .completing src conn call →
    Waiting s n src conn call

/-- It holds at the start. -/
theorem relayInv_init : RelayInv {} where
  sound _ := sound_init
  alone _ _ _ _ _ hc := absurd hc (by simp)
  callers _ _ h := by cases h
  query _ := rfl
  waiting _ _ _ _ h := by cases h

namespace RelayInv

variable {order : ByteOrder} {process : Process} {s s' : RelayState} {conn : ℕ}

/-- A session on which `recv` fails, or whose frame cannot be read, is left. -/
private theorem left (h : RelayInv s) (n : ℕ) :
    RelayInv { s with relayers := Function.update s.relayers (.session n) .ended } where
  sound := h.sound
  alone := h.alone
  callers := h.callers
  query conn := by
    simp only [Function.update_of_ne (show Relayer.query conn ≠ .session n by simp)]
    exact h.query conn
  waiting m src conn call hphase := by
    have hold : s.relayers (.session m) = .completing src conn call := by
      by_cases hm : m = n
      · subst hm
        simp only [Function.update_self] at hphase
        cases hphase
      · simp only [Function.update_of_ne (show Relayer.session m ≠ .session n by simpa using hm)]
          at hphase
        exact hphase
    exact (h.waiting m src conn call hold).of_eq rfl (fun _ hc => hc) rfl rfl

/-- The handlers at work for a session that does not wait may change. -/
private theorem update_handling (h : RelayInv s) {n : ℕ} (k : ℕ)
    (hfree : ∀ src conn call, s.relayers (.session n) ≠ .completing src conn call) :
    RelayInv { s with handling := Function.update s.handling n k } where
  sound := h.sound
  alone := h.alone
  callers := h.callers
  query := h.query
  waiting m src conn call hphase := by
    have hm : m ≠ n := by
      rintro rfl
      exact hfree src conn call hphase
    exact (h.waiting m src conn call hphase).of_eq rfl (fun _ hc => hc) rfl
      (Function.update_of_ne hm ..)

/-- A call under way on a connection is unfinished, so the connection is awaited. -/
private theorem not_unawaited (h : RelayInv s) {n : ℕ} {src : BitVec 32} {call : ℕ}
    (hphase : s.relayers (.session n) = .completing src conn call) : ¬ s.Unawaited conn := by
  intro hnone
  have hwaiting := h.waiting n src conn call hphase
  obtain ⟨c, hc, -, hunfinished⟩ := hwaiting.open'
  obtain ⟨frame, hcaller⟩ := hwaiting.caller
  obtain ⟨hlt, -⟩ := List.getElem?_eq_some_iff.mp hc
  have hfinished := hnone call hlt (by rw [hcaller]; rfl)
  rw [hc, Option.any_some, hunfinished] at hfinished
  cases hfinished

/-- No callback is the empty one. -/
private theorem callbackThrows_eq_false (h : RelayInv s) (conn : ℕ) :
    s.callbackThrows conn = false := by
  rw [RelayState.callbackThrows]
  split
  · rename_i src _
    cases (s.conns conn).find src with
    | none => rfl
    | some call =>
        rw [Option.any_some]
        cases hcaller : s.callers (conn, call) with
        | none => rfl
        | some caller =>
            obtain ⟨n, hn⟩ := h.callers _ _ hcaller
            rw [Option.any_some, hn]
  · rfl

/-- A step of a connection keeps the invariant, unless it ends a `query` that is awaited or starts
to send while another call does. -/
private theorem connectionStep (h : RelayInv s) {e : ClientEvent}
    (hfresh : Fresh (s.conns conn) e) (hwaits : HeadWaits (s.conns conn) e)
    (hsilent : ∀ src kind, e = .start src kind → s.Silent conn)
    (hends : EndsQuery e → s.Unawaited conn) (hstep : s.connectionStep order conn e = some s') :
    RelayInv s' := by
  obtain ⟨client, hclient, rfl⟩ := Option.map_eq_some_iff.mp hstep
  refine ⟨fun conn' => ?_, fun conn' => ?_, h.callers, fun conn' => ?_,
    fun n src conn' call hphase => ?_⟩
  · by_cases hconn : conn' = conn
    · subst hconn
      simp only [Function.update_self]
      exact (h.sound conn').step hfresh hwaits hclient
    · simp only [Function.update_of_ne hconn]
      exact h.sound conn'
  · by_cases hconn : conn' = conn
    · subst hconn
      simp only [Function.update_self]
      exact (h.alone conn').step hsilent hclient
    · simp only [Function.update_of_ne hconn]
      exact h.alone conn'
  · simp only [h.query conn']
    rfl
  · obtain ⟨hold, hopen⟩ := completing_of_goOn hphase
    have hwaiting := h.waiting n src conn' call hold
    by_cases hconn : conn' = conn
    · subst hconn
      obtain ⟨c, hc, hkind, -⟩ := hwaiting.open'
      obtain ⟨c', hc', -, hkind'⟩ := call_of_clientStep hclient hc
      have hunfinished : c'.phase.finished = false := by
        cases hfinished : c'.phase.finished with
        | false => rfl
        | true => exact absurd ⟨rfl, by rw [hc', Option.any_some, hfinished]⟩ hopen
      refine ⟨hwaiting.caller, ?_, ?_, hwaiting.alone⟩
      · simp only [Function.update_self]
        exact ⟨c', hc', hkind'.trans hkind, hunfinished⟩
      · simp only [Function.update_self]
        intro hended
        rcases query_of_clientStep hclient hended with hold' | hends'
        · exact hwaiting.alive hold'
        · exact h.not_unawaited hold (hends hends')
    · refine hwaiting.of_eq rfl (fun c hc => ?_) ?_ rfl <;>
        simp only [Function.update_of_ne hconn]
      exact hc

/-- A frame of a client that starts a call keeps the invariant. -/
private theorem startCall (h : RelayInv s) {n : ℕ} {src newSrc : BitVec 32} {frame : Bytes}
    {client : ClientState}
    (hfresh : Fresh (s.conns conn) (.start newSrc (.asyncCallBuffer true)))
    (halive : (s.conns conn).query ≠ .ended) (hsilent : s.Silent conn)
    (halone : s.handling n = 0)
    (hclient : clientStep (s.conns conn) (.start newSrc (.asyncCallBuffer true)) = some client) :
    RelayInv { s with
      relayers := Function.update s.relayers (.session n)
        (.completing src conn (s.conns conn).calls.length)
      conns := Function.update s.conns conn client
      callers := Function.update s.callers (conn, (s.conns conn).calls.length)
        (some ⟨.session n, src, frame⟩) } := by
  have hstarted : client = { s.conns conn with
      calls := (s.conns conn).calls ++ [{ src := newSrc, kind := .asyncCallBuffer true }]
      buffers := (s.conns conn).registRespFunc newSrc (s.conns conn).calls.length } :=
    (Option.some.inj hclient).symm
  refine ⟨fun conn' => ?_, fun conn' => ?_, fun key caller hcaller => ?_, fun conn' => ?_,
    fun m src' conn' call hphase => ?_⟩
  · by_cases hconn : conn' = conn
    · subst hconn
      simp only [Function.update_self]
      exact (h.sound conn').step hfresh (fun _ hi => by cases hi) hclient
    · simp only [Function.update_of_ne hconn]
      exact h.sound conn'
  · by_cases hconn : conn' = conn
    · subst hconn
      simp only [Function.update_self]
      exact (h.alone conn').step (fun _ _ _ => hsilent) hclient
    · simp only [Function.update_of_ne hconn]
      exact h.alone conn'
  · by_cases hkey : key = (conn, (s.conns conn).calls.length)
    · simp only [hkey, Function.update_self, Option.some.injEq] at hcaller
      exact ⟨n, by rw [← hcaller]⟩
    · simp only [Function.update_of_ne hkey] at hcaller
      exact h.callers key caller hcaller
  · simp only [Function.update_of_ne (show Relayer.query conn' ≠ .session n by simp)]
    exact h.query conn'
  · by_cases hm : m = n
    · -- the new call
      subst hm
      simp only [Function.update_self, RelayPhase.completing.injEq] at hphase
      obtain ⟨rfl, rfl, rfl⟩ := hphase
      refine ⟨⟨frame, by simp only [Function.update_self]⟩, ?_, ?_, halone⟩ <;>
        simp only [Function.update_self]
      · rw [hstarted]
        exact ⟨_, List.getElem?_concat_length, rfl, rfl⟩
      · rw [hstarted]
        exact halive
    · simp only [Function.update_of_ne (show Relayer.session m ≠ .session n by simpa using hm)]
        at hphase
      have hwaiting := h.waiting m src' conn' call hphase
      by_cases hconn : conn' = conn
      · subst hconn
        obtain ⟨c, hc, -⟩ := hwaiting.open'
        obtain ⟨hlt, -⟩ := List.getElem?_eq_some_iff.mp hc
        have hkey : (conn', call) ≠ (conn', (s.conns conn').calls.length) := by
          intro heq
          exact Nat.ne_of_lt hlt (Prod.mk.inj heq).2
        refine hwaiting.of_eq (Function.update_of_ne hkey ..) (fun c hc => ?_) ?_ rfl <;>
          simp only [Function.update_self, hstarted]
        exact getElem?_concat_of_some hc _
      · have hkey : (conn', call) ≠ (conn, (s.conns conn).calls.length) := by
          intro heq
          exact hconn (Prod.mk.inj heq).1
        refine hwaiting.of_eq (Function.update_of_ne hkey ..) (fun c hc => ?_) ?_ rfl <;>
          simp only [Function.update_of_ne hconn]
        exact hc

end RelayInv

/-- **The step lemma**: a step that hinders no frame and no answer keeps the invariant. -/
theorem relayInv_step {order : ByteOrder} {process : Process} {s s' : RelayState} {e : RelayEvent}
    (h : RelayInv s) (hdrawn : s.Drawn e) (hg : s.Unhindered process e)
    (hstep : relayStep order process s e = some s') : RelayInv s' := by
  cases e with
  | put topic conn =>
      obtain rfl := Option.some.inj hstep
      rw [RelayState.put]
      split
      · exact { h with waiting := fun n src conn call hphase =>
          (h.waiting n src conn call hphase).of_eq rfl (fun _ hc => hc) rfl rfl }
      · exact h
  | clientFrame n src payload newSrc =>
      obtain ⟨hphase, rfl | rfl | ⟨d, htarget, hcomplete⟩⟩ := clientFrame_cases hstep
      · exact h.left n
      · exact h
      · rcases complete_cases hcomplete with
          rfl | ⟨m, hm, rfl⟩ | ⟨conn, client, hbound, hclient, rfl⟩
        · exact h
        · obtain rfl := Relayer.session.inj hm
          refine h.update_handling _ fun src conn call hcompleting => ?_
          rw [hphase] at hcompleting
          cases hcompleting
        · have hconn : conn ∈ s.target payload := htarget.trans hbound
          obtain ⟨hconnected, hsilent, halone⟩ := hg conn hconn
          exact h.startCall (hdrawn conn hconn) hconnected.1 hsilent halone hclient
  | clientCloses n =>
      rw [relayStep] at hstep
      split at hstep
      · obtain rfl := Option.some.inj hstep
        exact h.left n
      · cases hstep
  | handled n =>
      rw [relayStep] at hstep
      split at hstep
      · cases hstep
      · rename_i hbusy
        obtain rfl := Option.some.inj hstep
        exact h.update_handling _ fun src conn call hphase =>
          hbusy (h.waiting n src conn call hphase).alone
  | instanceFrame conn src payload newSrc =>
      rw [RelayState.Unhindered] at hg
      rcases instanceFrame_cases hstep with
        ⟨hreads, hconnection⟩ | ⟨hreads, s₁, hconnection, hrest⟩
      · rw [hreads, if_neg Bool.false_ne_true] at hg
        have hfresh : Fresh (s.conns conn) .recvFails := trivial
        exact h.connectionStep hfresh (fun _ hi => by cases hi) (fun _ _ he => by cases he)
          (fun _ => hg) hconnection
      · rw [hreads, if_pos rfl] at hg
        obtain ⟨hwaits, hown⟩ := hg
        have hends : EndsQuery (.frame src payload) → s.Unawaited conn := by
          intro hends
          rw [Process.reads] at hreads
          rw [EndsQuery] at hends
          cases hrun : fromDatasString.run payload with
          | error fault =>
              rw [hrun] at hreads
              cases hreads
          | ok result =>
              rw [hrun] at hends
              cases hends
        have hfresh : Fresh (s.conns conn) (.frame src payload) := trivial
        have hinv : RelayInv s₁ :=
          h.connectionStep hfresh hwaits (fun _ _ he => by cases he) hends hconnection
        rcases hrest with rfl | ⟨d, hfind, htarget, hcomplete⟩
        · exact hinv
        · -- a frame that nobody waits for is not relayed
          have hbound : s₁.bound d.router = none := by
            obtain ⟨client, -, rfl⟩ := Option.map_eq_some_iff.mp hconnection
            exact htarget.symm.trans (hown hfind)
          rw [RelayState.complete, hbound] at hcomplete
          obtain rfl := Option.some.inj hcomplete
          exact hinv
  | connection conn e =>
      rw [relayStep] at hstep
      split at hstep
      · rename_i hadmits
        obtain ⟨hwaits, hundamaged⟩ := hg
        refine h.connectionStep hdrawn hwaits ?_ (fun hends => ?_) hstep
        · rintro src kind rfl
          exact hundamaged
        · cases e with
          | recvFails => exact hundamaged
          | funcThrows =>
              rw [RelayState.admits, h.callbackThrows_eq_false conn] at hadmits
              cases hadmits
          | frame src payload => cases hadmits
          | start | sendDone | receive | funcDone | resume => exact hends.elim
      · cases hstep

end Aquarius
