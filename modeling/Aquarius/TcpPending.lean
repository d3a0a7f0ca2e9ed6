import Aquarius.TcpClient

/-!
# The Table of Pending Calls

`buffers_` of a `tcp` client should list the calls that still wait for their response: those
that were started and have been neither answered nor failed. `send_request` and `send_buffer`
register the callback before they send, and only `filling_buffer` erases it. After a failed
send the entry stays, with a callback that refers to a call that has returned (`async_call`),
or to one that goes on to wait for a response nobody will send (`async_call_buffer`).

`KeepsTable` is the condition under which the table is right: a send fails only for an
`async_call` that has been answered already, and the source of a new call is not in the table.

## Main results

* `tableExact_of_run`: in every run whose steps meet the condition, the table is exact in every
  state, and the first send that does not meet it leaves a table that is not.
* `not_tableExact_sendFails`: one call whose request could not be sent.
-/

open Decoding Transition

namespace Aquarius

/-! ### Calls that have failed -/

/-- A client with the calls to which `async_send` has reported an error. -/
structure PendingState where
  client : ClientState := {}
  failed : List ℕ := []
  deriving DecidableEq

/-- The call an event reports an error to. -/
def failedBy : ClientEvent → List ℕ
  | .sendDone i false => [i]
  | _ => []

/-- One step of the client. -/
def pendingStep (t : PendingState) (e : ClientEvent) : Option PendingState :=
  (clientStep t.client e).map fun s => { client := s, failed := t.failed ++ failedBy e }

/-- A call with this source has been started and has been neither answered nor failed. -/
def Pending (t : PendingState) (src : BitVec 32) : Prop :=
  ∃ i c, t.client.calls[i]? = some c ∧ c.src = src ∧ c.answered = false ∧ i ∉ t.failed

/-- The table has the entries of the pending calls; no entry is left of a call that has
failed, and such a call does not wait. -/
structure TableExact (t : PendingState) : Prop where
  entry : ∀ src, t.client.find src ≠ none ↔ Pending t src
  gone : ∀ i ∈ t.failed, ∀ src, t.client.find src ≠ some i
  notWaiting : ∀ i ∈ t.failed, ∀ c, t.client.calls[i]? = some c → c.phase.finished = true

/-- The source of a new call is not in the table, and a send fails only for an `async_call`
that has been answered already. -/
def KeepsTable (t : PendingState) : ClientEvent → Prop
  | .start src _ => t.client.find src = none
  | .sendDone i false =>
      ∀ c ∈ t.client.calls[i]?, c.answered = true ∧ c.kind.checksSend = true
  | _ => True

instance (t : PendingState) (e : ClientEvent) : Decidable (KeepsTable t e) :=
  match e with
  | .start src _ => inferInstanceAs (Decidable (t.client.find src = none))
  | .sendDone i false => inferInstanceAs (Decidable (∀ c ∈ t.client.calls[i]?,
      c.answered = true ∧ c.kind.checksSend = true))
  | .sendDone _ true | .receive .. | .frame .. | .funcDone | .funcThrows | .recvFails
  | .resume .. => .isTrue trivial

/-! ### The invariant -/

/-- Every call that is not answered owns its entry, and every call that has failed is answered
and has returned. -/
structure PendingInv (t : PendingState) : Prop where
  owner : ∀ i c, t.client.calls[i]? = some c → c.answered = false →
    t.client.find c.src = some i
  failed : ∀ i ∈ t.failed, ∃ c, t.client.calls[i]? = some c ∧ c.answered = true ∧
    c.phase = .abandoned

/-- The invariant makes the table exact. -/
theorem PendingInv.tableExact {t : PendingState} (h : PendingInv t)
    (hchannel : ChannelInv t.client) : TableExact t := by
  have hgone : ∀ i ∈ t.failed, ∀ c, t.client.calls[i]? = some c → c.answered ≠ false := by
    intro i hi c hc
    obtain ⟨d, hd, hanswered, -⟩ := h.failed i hi
    obtain rfl : c = d := Option.some.inj (by rw [← hc, hd])
    rw [hanswered]
    exact Bool.noConfusion
  refine { entry := fun src => ⟨?_, ?_⟩, gone := ?_, notWaiting := ?_ }
  · intro hfind
    obtain ⟨i, hi⟩ := Option.ne_none_iff_exists'.mp hfind
    obtain ⟨c, hc, hsrc, hanswered⟩ := hchannel.registered src i hi
    exact ⟨i, c, hc, hsrc, hanswered, fun hfailed => hgone i hfailed c hc hanswered⟩
  · rintro ⟨i, c, hc, rfl, hanswered, -⟩
    rw [h.owner i c hc hanswered]
    exact Option.some_ne_none i
  · intro i hi src hfind
    obtain ⟨c, hc, -, hanswered⟩ := hchannel.registered src i hfind
    exact hgone i hi c hc hanswered
  · intro i hi c hc
    obtain ⟨d, hd, -, hphase⟩ := h.failed i hi
    obtain rfl : c = d := Option.some.inj (by rw [← hc, hd])
    rw [hphase]
    rfl

namespace PendingInv

variable {s s' : ClientState} {failed : List ℕ} {i : ℕ} {c : Call} {src : BitVec 32}

/-- The calls change, but neither what they are to the table nor those that have returned
without waiting. -/
private theorem withCalls (h : PendingInv ⟨s, failed⟩) (htable : s'.buffers = s.buffers)
    (hcalls : ∀ (j : ℕ) (d : Call), s'.calls[j]? = some d →
      ∃ c : Call, s.calls[j]? = some c ∧ d.src = c.src ∧ d.answered = c.answered)
    (habandoned : ∀ (j : ℕ) (d : Call), s.calls[j]? = some d → d.phase = .abandoned →
      s'.calls[j]? = some d) : PendingInv ⟨s', failed⟩ where
  owner j d hd hanswered := by
    obtain ⟨c, hc, hsrc, hsame⟩ := hcalls j d hd
    rw [ClientState.find, htable, hsrc]
    exact h.owner j c hc (hsame ▸ hanswered)
  failed j hj := by
    obtain ⟨d, hd, hanswered, hphase⟩ := h.failed j hj
    exact ⟨d, habandoned j d hd hphase, hanswered, hphase⟩

/-- A call that has not returned without waiting changes its phase. -/
private theorem setPhase (h : PendingInv ⟨s, failed⟩) (hc : s.calls[i]? = some c)
    (hphase : c.phase ≠ .abandoned) (phase : Phase) (receivers : List ℕ) :
    PendingInv ⟨{ s.setPhase i phase with receivers := receivers }, failed⟩ := by
  refine h.withCalls rfl ?_ ?_
  · intro j d hd
    obtain ⟨d₀, hd₀, rfl⟩ := getElem?_modify_eq_some.mp hd
    refine ⟨d₀, hd₀, ?_⟩
    split <;> exact ⟨rfl, rfl⟩
  · intro j d hd habandoned
    have hij : i ≠ j := by
      rintro rfl
      obtain rfl : c = d := Option.some.inj (by rw [← hc, hd])
      exact hphase habandoned
    exact getElem?_modify_eq_some.mpr ⟨d, hd, (if_neg hij).symm⟩

/-- A value is posted to the oldest receiver. -/
private theorem trySend (h : PendingInv ⟨s, failed⟩) (hchannel : ChannelInv s)
    (v : BitVec 32) : PendingInv ⟨s.trySend v, failed⟩ := by
  refine h.withCalls (by rw [trySend_eq]) ?_ ?_
  · intro j d hd
    obtain ⟨d₀, hd₀, rfl⟩ := getElem?_trySend.mp hd
    refine ⟨d₀, hd₀, ?_⟩
    split <;> exact ⟨rfl, rfl⟩
  · intro j d hd habandoned
    refine getElem?_trySend.mpr ⟨d, hd, (if_neg ?_).symm⟩
    intro hhead
    obtain ⟨d', hd', hphase⟩ := hchannel.receiving j (List.mem_of_head? hhead)
    obtain rfl : d = d' := Option.some.inj (by rw [← hd, hd'])
    rw [habandoned] at hphase
    cases hphase

/-- Everything `complete` does but posting the source: the entry that is erased is that of the
call which is now answered. -/
private theorem erased (h : PendingInv ⟨s, failed⟩) (hfind : s.find src = some i) :
    PendingInv ⟨{ s with
      calls := s.calls.modify i fun c => { c with answered := true }
      buffers := s.erase src
      query := .running
      processed := s.processed ++ [src] }, failed⟩ where
  owner j d hd hanswered := by
    obtain ⟨c, hc, rfl⟩ := getElem?_modify_eq_some.mp hd
    by_cases hij : i = j
    · rw [if_pos hij] at hanswered
      cases hanswered
    · rw [if_neg hij] at hanswered ⊢
      have howner := h.owner j c hc hanswered
      have hne : c.src ≠ src := by
        rintro rfl
        exact hij (Option.some.inj (hfind.symm.trans howner))
      exact (lookup_erase c.src).trans ((if_neg hne).trans howner)
  failed j hj := by
    obtain ⟨d, hd, hanswered, hphase⟩ := h.failed j hj
    refine ⟨_, getElem?_modify_eq_some.mpr ⟨d, hd, rfl⟩, ?_⟩
    split
    · exact ⟨rfl, hphase⟩
    · exact ⟨hanswered, hphase⟩

/-- The end of `filling_buffer`. -/
private theorem complete (h : PendingInv ⟨s, failed⟩) (hchannel : ChannelInv s)
    (hfind : s.find src = some i) : PendingInv ⟨s.complete src i, failed⟩ :=
  (h.erased hfind).trySend (hchannel.erased hfind) src

/-- A new call with a source that is not in the table. -/
private theorem start (h : PendingInv ⟨s, failed⟩) (hfresh : s.find src = none)
    (kind : CallKind) :
    PendingInv ⟨{ s with
      calls := s.calls ++ [{ src := src, kind := kind }]
      buffers := s.registRespFunc src s.calls.length }, failed⟩ where
  owner j d hd hanswered := by
    refine (lookup_registRespFunc d.src).trans ?_
    rcases getElem?_concat_cases hd with ⟨rfl, rfl⟩ | hd
    · exact if_pos rfl
    · have howner := h.owner j d hd hanswered
      have hne : d.src ≠ src := by
        rintro rfl
        rw [hfresh] at howner
        cases howner
      rw [if_neg hne]
      exact howner
  failed j hj := by
    obtain ⟨d, hd, hfailed⟩ := h.failed j hj
    exact ⟨d, getElem?_concat_of_some hd _, hfailed⟩

end PendingInv

/-! ### Steps and runs -/

section Steps

variable {s s' : ClientState} {t t' : PendingState} {e : ClientEvent} {i : ℕ}

/-- A failed send of an `async_call` that has been answered. -/
private theorem pendingInv_sendFails (h : PendingInv t) {c : Call}
    (hc : t.client.calls[i]? = some c) (hsending : c.phase = .sending)
    (hanswered : c.answered = true) :
    PendingInv { client := t.client.setPhase i .abandoned, failed := t.failed ++ [i] } := by
  have hset := PendingInv.setPhase h hc (by rw [hsending]; simp) .abandoned t.client.receivers
  refine { owner := hset.owner, failed := fun j hj => ?_ }
  rcases List.mem_append.mp hj with hj | hj
  · exact hset.failed j hj
  · obtain rfl := List.mem_singleton.mp hj
    refine ⟨_, getElem?_modify_eq_some.mpr ⟨c, hc, rfl⟩, ?_⟩
    rw [if_pos rfl]
    exact ⟨hanswered, rfl⟩

/-- **The step lemma**: every step that keeps the table keeps the invariant. -/
theorem pendingInv_step (h : PendingInv t) (hchannel : ChannelInv t.client)
    (hkeeps : KeepsTable t e) (hstep : pendingStep t e = some t') : PendingInv t' := by
  obtain ⟨s', hs', rfl⟩ := Option.map_eq_some_iff.mp hstep
  have hcases : (∃ i, e = .sendDone i false) ∨ failedBy e = [] := by
    unfold failedBy
    split
    · rename_i i
      exact Or.inl ⟨i, rfl⟩
    · exact Or.inr rfl
  rcases hcases with ⟨i, rfl⟩ | hfailed
  · obtain ⟨c, hc, hsending, rfl⟩ := sendDone_cases hs'
    obtain ⟨hanswered, hchecks⟩ := hkeeps c hc
    rw [hchecks]
    exact pendingInv_sendFails h hc hsending hanswered
  · rw [hfailed, List.append_nil]
    have heffect := effect_of_clientStep hs'
    generalize completes t.client e = erased at heffect
    cases heffect with
    | start src kind => exact PendingInv.start h hkeeps kind
    | sent hc hphase _ =>
        exact PendingInv.setPhase h hc (by rw [hphase]; simp) _ t.client.receivers
    | wait hc hphase =>
        refine PendingInv.setPhase h hc ?_ _ _
        rcases hphase with hphase | ⟨v, hphase, -⟩ <;> rw [hphase] <;> simp
    | returned hc hphase =>
        exact PendingInv.setPhase h hc (by rw [hphase]; simp) _ t.client.receivers
    | ended _ => exact { h with }
    | unknown _ =>
        refine PendingInv.trySend ?_ ?_ 0
        · exact { h with }
        · exact { hchannel with }
    | invoked src payload _ _ _ => exact { h with }
    | completed _ _ hfind =>
        refine PendingInv.complete ?_ ?_ hfind
        · exact { h with }
        · exact { hchannel with }

/-- A send that fails for a call which is not answered leaves its entry; one that fails for an
`async_call_buffer` leaves the call waiting. -/
theorem not_tableExact_of_sendFails (h : PendingInv t)
    (hstep : pendingStep t (.sendDone i false) = some t')
    (hbreaks : ¬KeepsTable t (.sendDone i false)) : ¬TableExact t' := by
  obtain ⟨s', hs', rfl⟩ := Option.map_eq_some_iff.mp hstep
  obtain ⟨c, hc, -, rfl⟩ := sendDone_cases hs'
  have hmem : i ∈ t.failed ++ [i] := List.mem_append_right _ (List.mem_singleton_self i)
  intro hexact
  cases hanswered : c.answered with
  | false => exact hexact.gone i hmem c.src (h.owner i c hc hanswered)
  | true =>
      have hchecks : c.kind.checksSend = false := by
        by_contra hchecks
        refine hbreaks fun d hd => ?_
        obtain rfl : c = d := Option.some.inj (hc.symm.trans hd)
        exact ⟨hanswered, Bool.not_eq_false _ ▸ hchecks⟩
      have hfinished := hexact.notWaiting i hmem _ (getElem?_modify_eq_some.mpr ⟨c, hc, rfl⟩)
      rw [if_pos rfl, hchecks] at hfinished
      cases hfinished

/-- The client starts without calls. -/
theorem pendingInv_init : PendingInv {} where
  owner i c hc := by cases hc
  failed i hi := by cases hi

/-- The invariants hold after every run of such steps. -/
theorem pendingInv_of_run {es : List ClientEvent} (hrun : Run pendingStep KeepsTable {} es t) :
    PendingInv t ∧ ChannelInv t.client := by
  refine hrun.invariant (I := fun t => PendingInv t ∧ ChannelInv t.client) ?_
    ⟨pendingInv_init, channelInv_init⟩
  rintro t e t' ⟨h, hchannel⟩ hkeeps hstep
  refine ⟨pendingInv_step h hchannel hkeeps hstep, ?_⟩
  obtain ⟨s', hs', rfl⟩ := Option.map_eq_some_iff.mp hstep
  exact channelInv_step hchannel hs'

end Steps

/-- **The table of pending calls.** In every run in which no send fails, except for an
`async_call` that has been answered already, and no source is drawn that is in the table: in
every state the table has an entry for exactly the sources of the calls that have been started
and neither answered nor failed, no entry is left of a call that has failed, and no such call
waits. And after such a run, a send that fails in any other way leaves a state in which this is
not so. -/
theorem tableExact_of_run {es : List ClientEvent} {t : PendingState}
    (hrun : Run pendingStep KeepsTable {} es t) :
    TableExact t ∧ ∀ i t', pendingStep t (.sendDone i false) = some t' →
      (TableExact t' ↔ KeepsTable t (.sendDone i false)) := by
  obtain ⟨h, hchannel⟩ := pendingInv_of_run hrun
  refine ⟨h.tableExact hchannel, fun i t' hstep => ⟨fun hexact => ?_, fun hkeeps => ?_⟩⟩
  · by_contra hbreaks
    exact not_tableExact_of_sendFails h hstep hbreaks hexact
  · obtain ⟨s', hs', rfl⟩ := Option.map_eq_some_iff.mp hstep
    exact (pendingInv_step h hchannel hkeeps hstep).tableExact (channelInv_step hchannel hs')

/-- A call that is answered, and one that is waiting. -/
def oneAnswered : List ClientEvent :=
  [.start 5 .asyncCall, .start 7 (.asyncCallBuffer true), .frame 5 [1, 47, 7], .funcDone,
    .sendDone 0 false, .sendDone 1 true, .receive 1]

/-- The state they lead to. -/
def afterOneAnswered : PendingState where
  client :=
    { calls := [⟨5, .asyncCall, .abandoned, true⟩, ⟨7, .asyncCallBuffer true, .receiving, false⟩]
      buffers := [(7, 1)]
      receivers := [1]
      received := [(5, [1, 47, 7])]
      invoked := [⟨0, 5, [1, 47, 7], [47], [7]⟩]
      processed := [5] }
  failed := [0]

/-- The table is exact when one of two calls has been answered. -/
theorem tableExact_oneAnswered : TableExact afterOneAnswered := by
  have hrun : Run pendingStep KeepsTable {} oneAnswered afterOneAnswered := Run.of_exec rfl
  exact (tableExact_of_run hrun).1

/-- The state after one `async_call` whose request could not be sent. -/
def afterSendFails : PendingState where
  client := { calls := [⟨5, .asyncCall, .abandoned, false⟩], buffers := [(5, 0)] }
  failed := [0]

/-- **One call whose request could not be sent**: the entry is left, and the table is not
exact. -/
theorem not_tableExact_sendFails :
    Run pendingStep (fun _ _ => True) {} [.start 5 .asyncCall, .sendDone 0 false]
      afterSendFails ∧ ¬TableExact afterSendFails := by
  refine ⟨Run.of_exec rfl, fun h => ?_⟩
  exact h.gone 0 List.mem_cons_self 5 rfl

end Aquarius
