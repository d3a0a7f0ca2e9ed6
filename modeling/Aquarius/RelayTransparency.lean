import Aquarius.RelayInvariant

/-!
# The Transparency of the Relay

The router is taken off on the receiving side and put back on the sending side, by different
functions on the two legs; both arrive at the same payload (`arrivesAs_sendBuffer`,
`arrivesAs_respond`). With the invariant this makes the relay transparent in every state of a run
that hinders nothing.

## Main results

* `transparent_of_run`: **both legs carry the payload unchanged**, the answer goes back under the
  `src` of the request, and the session goes on behind it, in every run whose steps hinder no
  frame and no answer.
* `not_transparent_of_unreadable`: a frame whose router cannot be read stops the answers of its
  connection.
* `hangs_relayStep`: a session whose call is lost is not served again.
* `not_transparent_crossed`: two clients of one instance, answered in the other order; the second
  session stays in `complete()` for good.
-/

open Decoding Transition

namespace Aquarius

/-! ### The two legs -/

section Legs

variable {order : ByteOrder}

/-- A payload that starts with a router is taken apart. -/
theorem run_fromDatasString_router {router : Bytes}
    (hsize : (toDatasString router).length ≤ maxSize) (s : Bytes) :
    fromDatasString.run (toDatasString router ++ s) = .ok (router, s) := by
  have hlen : router.length ≤ maxSize := by
    rw [toDatasString, List.length_append] at hsize
    omega
  exact reads_fromDatasString hlen s

/-- The frame of any sender arrives with its source and payload. -/
private theorem arrivesAs_sending (order : ByteOrder) (sending : Sending)
    (hsized : sending.Sized) :
    ArrivesAs order (sending.bytes order) sending.src sending.payload :=
  fun _ _ hstream => recv_frame hsized hstream

/-- A router that is not empty is written in front of the payload. -/
private theorem routerBytes_of_ne_nil {router : Bytes} (h : router ≠ []) :
    Sending.routerBytes router = toDatasString router := by
  rw [Sending.routerBytes, if_neg (by simpa using h)]

/-- An encoded router is not empty. -/
private theorem toDatasString_pos {router : Bytes} (hrouter : router ≠ []) (q : Bytes) :
    1 ≤ (toDatasString router ++ q).length := by
  have hpos := List.length_pos_of_ne_nil hrouter
  rw [toDatasString, List.length_append, List.length_append]
  omega

/-- What `send_buffer` writes for a router and the rest of a payload. -/
theorem arrivesAs_sendBuffer {router q : Bytes} (hrouter : router ≠ [])
    (hsize : (toDatasString router ++ q).length < 2 ^ 32) (src : BitVec 32) :
    ArrivesAs order ((sendBuffer src q router).asyncSend order) src
      (toDatasString router ++ q) := by
  have hpos := toDatasString_pos hrouter q
  have hpayload : (Sending.byBuffer src q router).payload = toDatasString router ++ q := by
    rw [Sending.payload, routerBytes_of_ne_nil hrouter]
  have harrives := arrivesAs_sending order (.byBuffer src q router)
    ⟨by rwa [hpayload], by rwa [hpayload]⟩
  rwa [hpayload] at harrives

/-- What the response lambda writes for a router and the rest of a payload. -/
theorem arrivesAs_respond {router q : Bytes} (hrouter : router ≠ [])
    (hsize : (toDatasString router ++ q).length < 2 ^ 32) (src : BitVec 32) :
    ArrivesAs order ((respond src q router).asyncSend order) src
      (toDatasString router ++ q) := by
  have hpos := toDatasString_pos hrouter q
  have hpayload : (Sending.byResponse src q router).payload = toDatasString router ++ q := by
    rw [Sending.payload, routerBytes_of_ne_nil hrouter]
  have harrives := arrivesAs_sending order (.byResponse src q router)
    ⟨by rwa [hpayload], by rwa [hpayload]⟩
  rwa [hpayload] at harrives

/-- The router of a payload below the frame limit is short enough to be read. -/
theorem length_router_le {router rest : Bytes}
    (h : (toDatasString router ++ rest).length < 2 ^ 32) :
    (toDatasString router).length ≤ maxSize := by
  have hmax : maxSize = 2 ^ 63 - 1 := rfl
  rw [List.length_append] at h
  omega

end Legs

/-! ### Transparency of a run -/

section Run

variable {order : ByteOrder} {process : Process} {s : RelayState} {n : ℕ} {src : BitVec 32}
  {conn call : ℕ} {c : Call}

/-- There is room for the router of a frame. -/
theorem Process.reads_router (process : Process) {r q : Bytes}
    (hsize : (toDatasString r ++ q).length < 2 ^ 32) :
    process.reads (toDatasString r ++ q) = true := by
  rw [Process.reads, run_fromDatasString_router (length_router_le hsize)]
  refine process.allocates_frame r.length ?_
  rw [toDatasString, List.length_append, List.length_append] at hsize
  omega

/-- A session in `recv` relays a frame whose topic is bound. -/
theorem relayStep_clientFrame (order : ByteOrder) (process : Process) (src newSrc : BitVec 32)
    {r q : Bytes} (hphase : s.relayers (.session n) = .receiving) (hbound : s.bound r = some conn)
    (hsize : (toDatasString r ++ q).length < 2 ^ 32) :
    relayStep order process s (.clientFrame n src (toDatasString r ++ q) newSrc) =
      s.complete order (.session n) ⟨src, r, q⟩ newSrc := by
  have hallocates : process.allocates r.length = true := by
    have hreads := process.reads_router hsize
    rwa [Process.reads, run_fromDatasString_router (length_router_le hsize)] at hreads
  have hturn : tcpTurn (s.server process) src (toDatasString r ++ q) =
      .ok (some ⟨src, r, q⟩) := by
    rw [tcpTurn, run_fromDatasString_router (length_router_le hsize)]
    simp only [RelayState.server, hbound, Option.isSome_some, if_true]
    rw [if_neg (by rw [hallocates]; exact Bool.noConfusion)]
  rw [relayStep, if_pos hphase, hturn]

/-- A frame that somebody waits for is a step of the client. -/
theorem relayStep_instanceFrame (order : ByteOrder) {payload : Bytes} (newSrc : BitVec 32)
    (hphase : s.relayers (.query conn) = .receiving) (hreads : process.reads payload = true)
    (hfind : (s.conns conn).find src = some call) :
    relayStep order process s (.instanceFrame conn src payload newSrc) =
      s.connectionStep order conn (.frame src payload) := by
  rw [relayStep, if_pos hphase, hfind]
  split
  · rename_i hthrown
    exact absurd hthrown (tcpTurn_ne_thrown hreads)
  · rename_i hnone
    cases hnone
  · rename_i hnone
    cases hnone
  · rfl

/-- An answer to a call that is registered invokes its callback, which writes to the session. -/
theorem RelayInv.delivers (h : RelayInv s) (hwaiting : Waiting s n src conn call)
    (hc : (s.conns conn).calls[call]? = some c) (hunanswered : c.answered = false)
    (hquery : (s.conns conn).query = .running) {r q : Bytes}
    (hsize : (toDatasString r ++ q).length < 2 ^ 32) (newSrc : BitVec 32) :
    ∃ s', relayStep order process s
        (.instanceFrame conn c.src (toDatasString r ++ q) newSrc) = some s' ∧
      s'.toClient = s.toClient ++ [(n, (respond src q r).asyncSend order)] ∧
      s'.toInstance = s.toInstance := by
  obtain ⟨c', hc', hkind, hunfinished⟩ := hwaiting.open'
  obtain ⟨frame, hcaller⟩ := hwaiting.caller
  obtain rfl : c = c' := Option.some.inj (hc.symm.trans hc')
  have hrun := run_fromDatasString_router (length_router_le hsize) q
  have hfind : (s.conns conn).find c.src = some call :=
    ((h.sound conn).inv.calls call c hc).owner hunfinished hunanswered
  have hclient := clientStep_frame hquery hrun hfind hc (by rw [hkind]; rfl)
  have hstep := relayStep_instanceFrame order newSrc (h.query conn) (process.reads_router hsize)
    hfind
  rw [RelayState.connectionStep, hclient, Option.map_some] at hstep
  refine ⟨_, hstep, ?_, List.append_nil _⟩
  simp only [List.drop_left, List.filterMap_cons, List.filterMap_nil, RelayState.written, hcaller]

/-- The steps of `async_send` and `wait` are steps of the connection. -/
theorem relayStep_connection (order : ByteOrder) (process : Process) (s : RelayState) (conn : ℕ)
    {e : ClientEvent} (hadmits : s.admits conn e = true) :
    relayStep order process s (.connection conn e) = s.connectionStep order conn e :=
  if_pos hadmits

/-- The frame of a session that is being sent is alone on its connection, and arrives. -/
theorem RelayInv.sends (h : RelayInv s) (hwaiting : Waiting s n src conn call)
    (hc : (s.conns conn).calls[call]? = some c) (hsending : c.phase = .sending) :
    Sends order process s n src conn call := by
  obtain ⟨frame, hcaller⟩ := hwaiting.caller
  have hclient : ∃ client, clientStep (s.conns conn) (.sendDone call true) = some client ∧
      client.invoked = (s.conns conn).invoked := by
    simp only [clientStep, hc, if_pos hsending]
    exact ⟨_, rfl, rfl⟩
  obtain ⟨client, hclient, hinvoked⟩ := hclient
  have hstep := relayStep_connection order process s conn (e := .sendDone call true) rfl
  rw [RelayState.connectionStep, hclient, Option.map_some] at hstep
  refine ⟨fun i c' hc' hsending' => h.alone conn i call c' c hc' hc hsending' hsending,
    _, frame, hstep, hcaller, ?_, ?_⟩
  · simp only [RelayState.sent, hcaller, Option.toList_some, List.map_cons, List.map_nil]
  · simp only [hinvoked, List.drop_length, List.filterMap_nil, List.append_nil]

/-- A call that has been answered returns to its session. -/
theorem RelayInv.returns (h : RelayInv s)
    (hphase : s.relayers (.session n) = .completing src conn call)
    (hc : (s.conns conn).calls[call]? = some c) (hunfinished : c.phase.finished = false)
    (hanswered : c.answered = true) : Returns order process s n conn call := by
  have hresumed : c.phase = .resumed c.src :=
    (h.sound conn).noneLost call c hc hunfinished hanswered
  have hclient : clientStep (s.conns conn) (.resume call) =
      some ((s.conns conn).setPhase call .returned) := by
    simp only [clientStep, hc, hresumed, if_true]
  have hreturned : ((s.conns conn).setPhase call .returned).calls[call]? =
      some { c with phase := .returned } :=
    getElem?_modify_eq_some.mpr ⟨c, hc, (if_pos rfl).symm⟩
  have hstep := relayStep_connection order process s conn (e := .resume call) rfl
  rw [RelayState.connectionStep, hclient, Option.map_some] at hstep
  refine ⟨_, hstep, ?_⟩
  change (s.relayers (.session n)).goOn conn _ = _
  rw [hphase, RelayPhase.goOn, if_pos ⟨rfl, by rw [hreturned]; rfl⟩]

/-- The invariant makes the relay transparent. -/
theorem RelayInv.transparent (h : RelayInv s) : Transparent order process s where
  request n src r q newSrc conn hphase hr hsize hbound := by
    have hstep := relayStep_clientFrame order process src newSrc hphase hbound hsize
    simp only [RelayState.complete, hbound, clientStep, Option.map_some] at hstep
    refine ⟨_, (s.conns conn).calls.length, { src := newSrc, kind := .asyncCallBuffer true }, _,
      hstep, Function.update_self .., ?_, rfl, rfl, Function.update_self ..,
      arrivesAs_sendBuffer hr hsize newSrc, rfl, rfl⟩
    simp only [Function.update_self]
    exact List.getElem?_concat_length
  sent n src conn call c hphase hc hsending :=
    h.sends (h.waiting n src conn call hphase) hc hsending
  answer n src conn call hphase := by
    have hwaiting := h.waiting n src conn call hphase
    obtain ⟨c, hc, -, hunfinished⟩ := hwaiting.open'
    refine ⟨c, hc, ?_⟩
    cases hanswered : c.answered with
    | true => exact Or.inr (h.returns hphase hc hunfinished hanswered)
    | false =>
        refine Or.inl ⟨hanswered, hwaiting.alive, hwaiting.alone,
          fun hquery r q newSrc hr hsize => ?_⟩
        obtain ⟨s', hstep, hto, hnone⟩ := h.delivers hwaiting hc hanswered hquery hsize newSrc
        exact ⟨s', _, hstep, hto, hnone, arrivesAs_respond hr hsize src⟩

/-- **Relay transparency of a run.** For any process, sessions, connections and topics and any
order of the steps, with sources that are fresh: in every run none of whose steps hinders a frame
or an answer, in every state, a session in `recv` relays the next frame to the instance its topic
is bound to, with the same payload; a session that awaits its answer gets it, with its own `src`
and the payload the instance answered with; and one that has had it goes on. -/
theorem transparent_of_run (order : ByteOrder) (process : Process) {es : List RelayEvent}
    {s : RelayState} (hrun : Run (relayStep order process)
      (fun s e => s.Drawn e ∧ s.Unhindered process e) {} es s) :
    Transparent order process s := by
  have hinv : RelayInv s :=
    hrun.invariant (fun _ _ _ h hg hstep => relayInv_step h hg.1 hg.2 hstep) relayInv_init
  exact hinv.transparent

end Run

/-! ### What stops the relay -/

section Stopped

variable {order : ByteOrder} {process : Process} {s s' : RelayState} {n : ℕ} {src : BitVec 32}
  {conn call : ℕ} {c : Call}

/-- The channel and the table of every connection fit its calls. -/
def ChannelsFit (s : RelayState) : Prop := ∀ conn, ChannelInv (s.conns conn)

/-- One connection after another takes a step. -/
private theorem ChannelsFit.update (h : ChannelsFit s) {conn' : ℕ} {e : ClientEvent}
    {client : ClientState} (hclient : clientStep (s.conns conn') e = some client) (conn : ℕ) :
    ChannelInv (Function.update s.conns conn' client conn) := by
  by_cases hconn : conn = conn'
  · subst hconn
    simpa only [Function.update_self] using channelInv_step (h conn) hclient
  · simpa only [Function.update_of_ne hconn] using h conn

/-- A step of a connection keeps it. -/
private theorem ChannelsFit.connectionStep {conn' : ℕ} {e : ClientEvent} (h : ChannelsFit s)
    (hstep : s.connectionStep order conn' e = some s') : ChannelsFit s' := by
  obtain ⟨client, hclient, rfl⟩ := Option.map_eq_some_iff.mp hstep
  exact h.update hclient

/-- So does a context. -/
private theorem ChannelsFit.complete {relayer : Relayer} {d : TcpDispatch} {newSrc : BitVec 32}
    (h : ChannelsFit s) (hstep : s.complete order relayer d newSrc = some s') :
    ChannelsFit s' := by
  rcases complete_cases hstep with rfl | ⟨m, -, rfl⟩ | ⟨conn', client, -, hclient, rfl⟩
  · exact h
  · exact h
  · exact h.update hclient

/-- It holds in every state, whatever happens. -/
theorem channelsFit_relayStep {e : RelayEvent} (h : ChannelsFit s)
    (hstep : relayStep order process s e = some s') : ChannelsFit s' := by
  cases e with
  | put topic conn' =>
      obtain rfl := Option.some.inj hstep
      rw [RelayState.put]
      split
      · exact h
      · exact h
  | clientFrame m src' payload newSrc =>
      obtain ⟨-, rfl | rfl | ⟨d, -, hcomplete⟩⟩ := clientFrame_cases hstep
      · exact h
      · exact h
      · exact h.complete hcomplete
  | clientCloses m =>
      rw [relayStep] at hstep
      split at hstep
      · obtain rfl := Option.some.inj hstep
        exact h
      · cases hstep
  | handled m =>
      rw [relayStep] at hstep
      split at hstep
      · cases hstep
      · obtain rfl := Option.some.inj hstep
        exact h
  | instanceFrame conn' src' payload newSrc =>
      rcases instanceFrame_cases hstep with ⟨-, hconnection⟩ | ⟨-, s₁, hconnection, hrest⟩
      · exact h.connectionStep hconnection
      · have hfit : ChannelsFit s₁ := h.connectionStep hconnection
        rcases hrest with rfl | ⟨d, -, -, hcomplete⟩
        · exact hfit
        · exact hfit.complete hcomplete
  | connection conn' e =>
      rw [relayStep] at hstep
      split at hstep
      · exact h.connectionStep hstep
      · cases hstep

/-- The call of a session is lost in `wait`. -/
structure Hangs (s : RelayState) (n : ℕ) (src : BitVec 32) (conn call : ℕ) : Prop where
  phase : s.relayers (.session n) = .completing src conn call
  stuck : Stuck (s.conns conn) call
  fit : ChannelsFit s

/-- A step of a connection leaves the session there. -/
private theorem hangs_connectionStep {conn' : ℕ} {e : ClientEvent} (h : Hangs s n src conn call)
    (hfresh : Fresh (s.conns conn') e) (hstep : s.connectionStep order conn' e = some s') :
    Hangs s' n src conn call := by
  have hfit := h.fit.connectionStep hstep
  obtain ⟨client, hclient, rfl⟩ := Option.map_eq_some_iff.mp hstep
  have hstuck : Stuck (Function.update s.conns conn' client conn) call := by
    by_cases hconn : conn = conn'
    · subst hconn
      simpa only [Function.update_self] using stuck_step h.stuck hfresh hclient
    · simpa only [Function.update_of_ne hconn] using h.stuck
  refine ⟨?_, hstuck, hfit⟩
  change (s.relayers (.session n)).goOn conn' client = _
  rw [h.phase, RelayPhase.goOn, if_neg]
  rintro ⟨rfl, hfinished⟩
  rw [Function.update_self] at hstuck
  rw [hstuck.unfinished] at hfinished
  cases hfinished

/-- So does `complete()` for anybody else. -/
private theorem hangs_complete {relayer : Relayer} {d : TcpDispatch} {newSrc : BitVec 32}
    (h : Hangs s n src conn call) (hother : relayer ≠ .session n)
    (hfresh : ∀ conn' ∈ s.bound d.router,
      Fresh (s.conns conn') (.start newSrc (.asyncCallBuffer true)))
    (hstep : s.complete order relayer d newSrc = some s') : Hangs s' n src conn call := by
  have hfit := h.fit.complete hstep
  rcases complete_cases hstep with rfl | ⟨m, -, rfl⟩ | ⟨conn', client, hbound, hclient, rfl⟩
  · exact h
  · exact ⟨h.phase, h.stuck, hfit⟩
  · refine ⟨(Function.update_of_ne hother.symm ..).trans h.phase, ?_, hfit⟩
    by_cases hconn : conn = conn'
    · subst hconn
      simpa only [Function.update_self] using stuck_step h.stuck (hfresh conn hbound) hclient
    · simpa only [Function.update_of_ne hconn] using h.stuck

/-- The end of another session leaves it there too. -/
private theorem hangs_left (h : Hangs s n src conn call) {m : ℕ}
    (hm : s.relayers (.session m) = .receiving) :
    Hangs { s with relayers := Function.update s.relayers (.session m) .ended } n src conn
      call := by
  have hne : Relayer.session n ≠ .session m := by
    intro heq
    rw [← heq, h.phase] at hm
    cases hm
  exact ⟨(Function.update_of_ne hne ..).trans h.phase, h.stuck, h.fit⟩

/-- **A session whose call is lost is not served again**: no step takes it out of `complete()`. -/
theorem hangs_relayStep {e : RelayEvent} (h : Hangs s n src conn call) (hdrawn : s.Drawn e)
    (hstep : relayStep order process s e = some s') : Hangs s' n src conn call := by
  cases e with
  | put topic conn' =>
      obtain rfl := Option.some.inj hstep
      rw [RelayState.put]
      split
      · exact ⟨h.phase, h.stuck, h.fit⟩
      · exact h
  | clientFrame m src' payload newSrc =>
      obtain ⟨hm, rfl | rfl | ⟨d, htarget, hcomplete⟩⟩ := clientFrame_cases hstep
      · exact hangs_left h hm
      · exact h
      · refine hangs_complete h ?_ (fun conn' hconn => hdrawn conn' (htarget.trans hconn)) hcomplete
        intro heq
        rw [heq, h.phase] at hm
        cases hm
  | clientCloses m =>
      rw [relayStep] at hstep
      split at hstep
      · rename_i hm
        obtain rfl := Option.some.inj hstep
        exact hangs_left h hm
      · cases hstep
  | handled m =>
      rw [relayStep] at hstep
      split at hstep
      · cases hstep
      · obtain rfl := Option.some.inj hstep
        exact ⟨h.phase, h.stuck, h.fit⟩
  | instanceFrame conn' src' payload newSrc =>
      rcases instanceFrame_cases hstep with ⟨-, hconnection⟩ | ⟨-, s₁, hconnection, hrest⟩
      · have hfresh : Fresh (s.conns conn') .recvFails := trivial
        exact hangs_connectionStep h hfresh hconnection
      · have hfresh : Fresh (s.conns conn') (.frame src' payload) := trivial
        have hhangs : Hangs s₁ n src conn call := hangs_connectionStep h hfresh hconnection
        rcases hrest with rfl | ⟨d, -, htarget, hcomplete⟩
        · exact hhangs
        · refine hangs_complete hhangs Relayer.noConfusion (fun conn₁ hconn => ?_) hcomplete
          obtain ⟨client, hclient, rfl⟩ := Option.map_eq_some_iff.mp hconnection
          have hdrawn₁ := hdrawn conn₁ (htarget.trans hconn)
          by_cases hconn₁ : conn₁ = conn'
          · subst hconn₁
            simpa only [Function.update_self] using fresh_of_clientStep (h.fit conn₁) hclient
              (fun _ _ => ClientEvent.noConfusion) hdrawn₁
          · simpa only [Function.update_of_ne hconn₁] using hdrawn₁
  | connection conn' e =>
      rw [relayStep] at hstep
      split at hstep
      · exact hangs_connectionStep h hdrawn hstep
      · cases hstep

/-- It is in `complete()` in every state of a run. -/
theorem not_transparent_of_hangs (h : Hangs s n src conn call) {es : List RelayEvent}
    (hrun : Run (relayStep order process) RelayState.Drawn s es s') :
    s'.relayers (.session n) = .completing src conn call ∧ ¬ Transparent order process s' := by
  have hhangs : Hangs s' n src conn call :=
    hrun.invariant (fun _ _ _ h hdrawn hstep => hangs_relayStep h hdrawn hstep) h
  refine ⟨hhangs.phase, fun htransparent => ?_⟩
  obtain ⟨c, hc, hawaits | ⟨s₁, hstep, hreceiving⟩⟩ :=
    htransparent.answer n src conn call hhangs.phase
  · obtain ⟨c', hc', -, hanswered, -⟩ := hhangs.stuck
    obtain rfl : c = c' := Option.some.inj (hc.symm.trans hc')
    have hunanswered := hawaits.unanswered
    rw [hanswered] at hunanswered
    cases hunanswered
  · have hfresh : s'.Drawn (.connection conn (.resume call)) := trivial
    rw [(hangs_relayStep hhangs hfresh hstep).phase] at hreceiving
    cases hreceiving

/-- A session in `wait` whose connection has no `query` any more is not served. -/
theorem not_transparent_of_ended (hphase : s.relayers (.session n) = .completing src conn call)
    (hc : (s.conns conn).calls[call]? = some c) (hwait : c.phase = .receiving)
    (hended : (s.conns conn).query = .ended) : ¬ Transparent order process s := by
  intro h
  obtain ⟨c', hc', hawaits | ⟨s', hstep, -⟩⟩ := h.answer n src conn call hphase
  · exact hawaits.alive hended
  · have hnone : clientStep (s.conns conn) (.resume call) = none := by
      simp only [clientStep, hc, hwait]
    rw [relayStep_connection order process s conn rfl, RelayState.connectionStep, hnone] at hstep
    cases hstep

/-- **A router that cannot be read** ends the `query` of its connection, and with it the answers to
all sessions that wait on it. -/
theorem not_transparent_of_unreadable {src' newSrc : BitVec 32} {payload : Bytes}
    (hphase : s.relayers (.session n) = .completing src conn call)
    (hc : (s.conns conn).calls[call]? = some c) (hwait : c.phase = .receiving)
    (hbad : process.reads payload = false)
    (hstep : relayStep order process s (.instanceFrame conn src' payload newSrc) = some s') :
    ¬ Transparent order process s' := by
  rcases instanceFrame_cases hstep with ⟨-, hconnection⟩ | ⟨hreads, -⟩
  · obtain ⟨client, hclient, rfl⟩ := Option.map_eq_some_iff.mp hconnection
    have hended : client = { s.conns conn with query := .ended } := by
      rw [clientStep] at hclient
      split at hclient
      · exact (Option.some.inj hclient).symm
      · cases hclient
    have hstays : (s.relayers (.session n)).goOn conn client = .completing src conn call := by
      rw [hphase, RelayPhase.goOn, if_neg]
      rintro ⟨-, hfinished⟩
      rw [hended, hc, Option.any_some, hwait] at hfinished
      cases hfinished
    refine not_transparent_of_ended hstays (c := c) ?_ hwait ?_ <;>
      simp only [Function.update_self, hended]
    exact hc
  · rw [hbad] at hreads
    cases hreads

end Stopped

/-! ### Two clients of one instance -/

/-- A process with no context of its own, and memory without bound. -/
def bareProcess : Process where
  contexts _ := .missing
  consume _ buffer := .ok buffer
  allocates _ := true
  allocates_frame _ _ := rfl

/-- Two clients send a frame each to the topic `a` of the instance on connection 4, which sends both
on; then both calls are in `wait`. -/
def twoRequests : List RelayEvent :=
  [.put [97] 4,
    .clientFrame 7 5 [1, 97, 1] 11, .connection 4 (.sendDone 0 true), .connection 4 (.receive 0),
    .clientFrame 8 6 [1, 97, 2] 12, .connection 4 (.sendDone 1 true), .connection 4 (.receive 1)]

/-- The instance answers in the order of the requests, and the first session goes on. -/
def answeredInOrder : List RelayEvent :=
  twoRequests ++ [.instanceFrame 4 11 [1, 98, 3] 0, .connection 4 .funcDone,
    .connection 4 (.resume 0), .instanceFrame 4 12 [1, 98, 4] 0]

/-- The instance answers in the other order. -/
def answeredCrossed : List RelayEvent :=
  twoRequests ++ [.instanceFrame 4 12 [1, 98, 4] 0, .connection 4 .funcDone,
    .connection 4 (.resume 0)]

/-- Answers in the order of the requests reach both clients, and the first session takes its next
frame. -/
theorem transparent_answeredInOrder :
    ∃ s, Transparent .little bareProcess s ∧ s.relayers (.session 7) = .receiving ∧
      s.toInstance = [(4, (sendBuffer 11 [1] [97]).asyncSend .little),
        (4, (sendBuffer 12 [2] [97]).asyncSend .little)] ∧
      s.toClient = [(7, (respond 5 [3] [98]).asyncSend .little),
        (8, (respond 6 [4] [98]).asyncSend .little)] := by
  have hrun : ∃ s, Run (relayStep .little bareProcess)
      (fun s e => s.Drawn e ∧ s.Unhindered bareProcess e) {} answeredInOrder s ∧
        s.relayers (.session 7) = .receiving ∧
        s.toInstance = [(4, (sendBuffer 11 [1] [97]).asyncSend .little),
          (4, (sendBuffer 12 [2] [97]).asyncSend .little)] ∧
        s.toClient = [(7, (respond 5 [3] [98]).asyncSend .little),
          (8, (respond 6 [4] [98]).asyncSend .little)] :=
    ⟨_, Run.of_exec rfl, rfl, rfl, rfl⟩
  obtain ⟨s, hrun, hphase, hinstance, hclient⟩ := hrun
  exact ⟨s, transparent_of_run .little bareProcess hrun, hphase, hinstance, hclient⟩

/-- The call of the second session is lost then. -/
private theorem hangs_answeredCrossed :
    ∃ s, Run (relayStep .little bareProcess) RelayState.Drawn {} answeredCrossed s ∧
      s.toClient = [(8, (respond 6 [4] [98]).asyncSend .little)] ∧ Hangs s 8 6 4 1 := by
  have hrun : ∃ s, Run (relayStep .little bareProcess) RelayState.Drawn {} answeredCrossed s ∧
      s.toClient = [(8, (respond 6 [4] [98]).asyncSend .little)] ∧
      s.relayers (.session 8) = .completing 6 4 1 ∧ Stuck (s.conns 4) 1 :=
    ⟨_, Run.of_exec rfl, rfl, rfl, _, rfl, by decide, rfl, rfl, Or.inl rfl⟩
  obtain ⟨s, hrun, hto, hphase, hstuck⟩ := hrun
  have hfit : ChannelsFit s :=
    hrun.invariant (fun _ _ _ h _ hstep => channelsFit_relayStep h hstep) fun _ => channelInv_init
  exact ⟨s, hrun, hto, hphase, hstuck, hfit⟩

/-- **A session that is not served again.** The answer to the second client is written to it, but
the notification for its call wakes the call of the first, which discards it: whatever happens
next, the second session stays in `complete()`, and relays none of the frames its client sends. -/
theorem not_transparent_crossed :
    ∃ s, Run (relayStep .little bareProcess) RelayState.Drawn {} answeredCrossed s ∧
      s.toClient = [(8, (respond 6 [4] [98]).asyncSend .little)] ∧
      ∀ es s', Run (relayStep .little bareProcess) RelayState.Drawn s es s' →
        s'.relayers (.session 8) = .completing 6 4 1 ∧ ¬ Transparent .little bareProcess s' := by
  obtain ⟨s, hrun, hto, hhangs⟩ := hangs_answeredCrossed
  exact ⟨s, hrun, hto, fun _ _ hlater => not_transparent_of_hangs hhangs hlater⟩

end Aquarius
