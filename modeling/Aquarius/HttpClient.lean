import Aquarius.Library.Transition
import Aquarius.HttpQuery

/-!
# The HTTP Client

Any number of `async_call` coroutines (`basic_client.hpp`) share one `http` object
(`ip/http.hpp`). Each registers its callback in `buffers_` and sends its request; one coroutine
calls `query` until that returns an error. All calls register under the same key `http_src`, so
the table has one slot: a call made while another is unanswered replaces its callback, and the
response that comes first takes the callback away.

A request that could not be sent shuts the session down and leaves the table as it is; the read
that is pending then fails, which is an event of its own. The callback of `async_call` consumes
the buffer without suspending, so a response is one step.

## Main results

* `clientStep_cases`: everything a step can do.
* `correlated_iff`: **the calls get their own responses** exactly in the runs in which every
  response comes while one call is unanswered and is accepted by `query`.
* `not_correlated_overlapping`: two calls, and the first response goes to the second.
-/

open Decoding Transition

namespace Aquarius

/-! ### The client -/

/-- The client. Calls and responses are numbered in the order in which they come; `given` lists
the responses handed to a callback, with the call it is of. -/
structure HttpClientState where
  started : ℕ := 0
  /-- `buffers_[http_src]` -/
  slot : Option ℕ := none
  /-- the coroutine that calls `query` is running -/
  reading : Bool := true
  arrived : ℕ := 0
  given : List (ℕ × ℕ) := []
  deriving DecidableEq

/-- What can happen next. -/
inductive HttpClientEvent where
  /-- `async_call` registers its callback and sends the request -/
  | call
  /-- the next response arrives, `k` bytes of it together with the blank line -/
  | response (k : ℕ) (stream : Bytes)
  /-- the pending read fails -/
  | readFails

namespace HttpClientState

variable (s : HttpClientState)

/-- `regist_resp_func`: the callback of the slot is overwritten. -/
def registRespFunc (i : ℕ) : HttpClientState := { s with slot := some i }

/-- `filling_buffer`: the callback in the slot is invoked and erased. -/
def fillingBuffer : HttpClientState :=
  match s.slot with
  | none => s
  | some i => { s with slot := none, given := s.given ++ [(s.arrived, i)] }

/-- One turn of the loop around `query`. -/
def readResponse : QueryResult → Option HttpClientState
  | .filled _ => some s.fillingBuffer
  -- an `error_code` of value zero is not an error, whatever its category
  | .refused status => some { s with reading := status = 0 }
  | .malformed _ | .failed | .thrown => some { s with reading := false }
  | .undefined => none

/-- One step. A response only comes for a request. -/
def step : HttpClientEvent → Option HttpClientState
  | .call => some { s.registRespFunc s.started with started := s.started + 1 }
  | .response k stream =>
      if s.arrived < s.started then
        if s.reading then
          (s.readResponse (httpQuery k stream)).map fun s => { s with arrived := s.arrived + 1 }
        else some { s with arrived := s.arrived + 1 }
      else none
  | .readFails => some { s with reading := false }

/-- Every response has been given exactly once, and to the callback of its own call. -/
def Correlated : Prop := ∀ k < s.arrived, s.given.filter (·.1 = k) = [(k, k)]

end HttpClientState

/-- `query` receives the response completely, and accepts its status line with the status
`ok`. -/
def AcceptedResponse (k : ℕ) (stream : Bytes) : Prop :=
  ∃ response version, Received k stream response ∧
    parseStatusLine (response.takeWhile fun b => !isCrlf b) = .ok (version, 200)

/-- A response comes while `query` is reading and exactly one call is unanswered, and is
accepted. -/
def Sequential (s : HttpClientState) : HttpClientEvent → Prop
  | .response k stream => s.reading = true ∧ s.started = s.arrived + 1 ∧ AcceptedResponse k stream
  | _ => True

/-- The responses `query` hands to `filling_buffer`. -/
theorem filled_iff (k : ℕ) (stream : Bytes) :
    (∃ buffer, httpQuery k stream = .filled buffer) ↔ AcceptedResponse k stream := by
  constructor
  · rintro ⟨buffer, hquery⟩
    rw [httpQuery] at hquery
    split at hquery
    · cases hquery
    · rename_i endPos read rest hread
      split at hquery
      · cases hquery
      · cases hquery
      · cases hquery
      · rename_i response rest' hrecv
        rw [queryBuffer] at hquery
        split at hquery
        · cases hquery
        · rename_i version status hparse
          split at hquery
          · cases hquery
          · rename_i hok
            rw [not_not.mp hok] at hparse
            exact ⟨response, version, ⟨endPos, read, rest, rest', hread, hrecv⟩, hparse⟩
  · rintro ⟨response, version, hreceived, hparse⟩
    rw [query_of_received hreceived, queryBuffer]
    simp only [hparse]
    exact ⟨_, rfl⟩

/-! ### What a step can do -/

section Steps

variable {s s' : HttpClientState} {e : HttpClientEvent}

/-- An accepted response is handed to `filling_buffer`; any other only decides whether the
reading goes on. -/
theorem readResponse_cases {k : ℕ} {stream : Bytes}
    (hread : s.readResponse (httpQuery k stream) = some s') :
    (AcceptedResponse k stream ∧ s' = s.fillingBuffer) ∨
      (¬AcceptedResponse k stream ∧ ∃ reading, s' = { s with reading := reading }) := by
  rw [← filled_iff]
  cases hquery : httpQuery k stream <;> rw [hquery] at hread
  case filled buffer => exact Or.inl ⟨⟨buffer, rfl⟩, (Option.some.inj hread).symm⟩
  case undefined => cases hread
  all_goals
    refine Or.inr ⟨?_, _, (Option.some.inj hread).symm⟩
    rintro ⟨buffer, hfilled⟩
    cases hfilled

/-- **Inversion**: a call takes the slot; a response empties it, or passes it by; a failed read
ends the reading. -/
theorem clientStep_cases (hstep : s.step e = some s') :
    (e = .call ∧ s' = { s with slot := some s.started, started := s.started + 1 }) ∨
    (∃ k stream i, e = .response k stream ∧ s.reading = true ∧ AcceptedResponse k stream ∧
      s.slot = some i ∧
      s' = { s with
        slot := none, arrived := s.arrived + 1, given := s.given ++ [(s.arrived, i)] }) ∨
    (∃ k stream reading, e = .response k stream ∧
      (s.reading = true → AcceptedResponse k stream → s.slot = none) ∧
      s' = { s with reading := reading, arrived := s.arrived + 1 }) ∨
    (e = .readFails ∧ s' = { s with reading := false }) := by
  cases e with
  | call => exact Or.inl ⟨rfl, (Option.some.inj hstep).symm⟩
  | readFails => exact Or.inr (Or.inr (Or.inr ⟨rfl, (Option.some.inj hstep).symm⟩))
  | response k stream =>
      rw [HttpClientState.step] at hstep
      split at hstep
      · split at hstep
        · rename_i hreading
          obtain ⟨t, ht, rfl⟩ := Option.map_eq_some_iff.mp hstep
          rcases readResponse_cases ht with ⟨haccepted, rfl⟩ | ⟨hrefused, reading, rfl⟩
          · cases hslot : s.slot with
            | none =>
                refine Or.inr (Or.inr (Or.inl ⟨k, stream, s.reading, rfl, fun _ _ => rfl, ?_⟩))
                simp only [HttpClientState.fillingBuffer, hslot]
            | some i =>
                refine Or.inr (Or.inl ⟨k, stream, i, rfl, hreading, haccepted, rfl, ?_⟩)
                simp only [HttpClientState.fillingBuffer, hslot]
          · exact Or.inr (Or.inr (Or.inl ⟨k, stream, reading, rfl,
              fun _ haccepted => absurd haccepted hrefused, rfl⟩))
        · rename_i hreading
          exact Or.inr (Or.inr (Or.inl ⟨k, stream, s.reading, rfl,
            fun h => absurd h hreading, (Option.some.inj hstep).symm⟩))
      · cases hstep

end Steps

/-! ### Correlation -/

/-- What holds in every state: only responses that have arrived were given, the slot is that of
the last call, and it is not empty while a call is unanswered and all went well so far. -/
structure SlotInv (s : HttpClientState) : Prop where
  numbered : ∀ g ∈ s.given, g.1 < s.arrived
  last : ∀ i, s.slot = some i → i + 1 = s.started
  waiting : s.Correlated → s.arrived < s.started → s.slot ≠ none

namespace SlotInv

variable {s s' : HttpClientState} {e : HttpClientEvent}

/-- The response that has not arrived yet was not given. -/
theorem filter_arrived (h : SlotInv s) : s.given.filter (·.1 = s.arrived) = [] := by
  refine List.filter_eq_nil_iff.mpr fun g hg => ?_
  have hlt := h.numbered g hg
  simp only [decide_eq_true_eq]
  omega

/-- A response that goes to call `i`. -/
theorem correlated_give (h : SlotInv s) {slot : Option ℕ} (i : ℕ) :
    HttpClientState.Correlated { s with
        slot := slot, arrived := s.arrived + 1, given := s.given ++ [(s.arrived, i)] } ↔
      s.Correlated ∧ i = s.arrived := by
  have hold : ∀ k < s.arrived, [(s.arrived, i)].filter (·.1 = k) = [] := fun k hk =>
    List.filter_cons_of_neg (by simpa using (Nat.ne_of_lt hk).symm)
  have hnew : [(s.arrived, i)].filter (·.1 = s.arrived) = [(s.arrived, i)] :=
    List.filter_cons_of_pos (decide_eq_true rfl)
  simp only [HttpClientState.Correlated, List.filter_append]
  constructor
  · intro hgiven
    refine ⟨fun k hk => ?_, ?_⟩
    · have hfilter := hgiven k (Nat.lt_succ_of_lt hk)
      rwa [hold k hk, List.append_nil] at hfilter
    · have hfilter := hgiven s.arrived (Nat.lt_succ_self _)
      rw [h.filter_arrived, hnew] at hfilter
      exact (Prod.mk.inj (List.cons.inj hfilter).1).2
  · rintro ⟨hgiven, rfl⟩ k hk
    rcases Nat.lt_succ_iff_lt_or_eq.mp hk with hk | rfl
    · rw [hgiven k hk, hold k hk, List.append_nil]
    · rw [h.filter_arrived, hnew, List.nil_append]

/-- A response that goes to nobody. -/
theorem not_correlated_pass (h : SlotInv s) (reading : Bool) :
    ¬HttpClientState.Correlated { s with reading := reading, arrived := s.arrived + 1 } := by
  intro hgiven
  have hfilter := hgiven s.arrived (Nat.lt_succ_self _)
  rw [h.filter_arrived] at hfilter
  cases hfilter

/-- **The step lemma**: after a response all is well exactly if it was before and the response
came for the only unanswered call. -/
theorem correlated_step (h : SlotInv s) (hstep : s.step e = some s') :
    s'.Correlated ↔ s.Correlated ∧ Sequential s e := by
  obtain ⟨rfl, rfl⟩ | ⟨k, stream, i, rfl, hreading, haccepted, hslot, rfl⟩ |
    ⟨k, stream, reading, rfl, hempty, rfl⟩ | ⟨rfl, rfl⟩ := clientStep_cases hstep
  · exact (and_iff_left trivial).symm
  · have hlast := h.last i hslot
    rw [h.correlated_give]
    refine and_congr_right fun _ => ?_
    constructor
    · rintro rfl
      exact ⟨hreading, hlast.symm, haccepted⟩
    · rintro ⟨-, hone, -⟩
      omega
  · refine iff_of_false (h.not_correlated_pass reading) ?_
    rintro ⟨hgiven, hreading, hone, haccepted⟩
    exact h.waiting hgiven (by omega) (hempty hreading haccepted)
  · exact (and_iff_left trivial).symm

/-- Every step keeps the invariant. -/
theorem step (h : SlotInv s) (hstep : s.step e = some s') : SlotInv s' := by
  have hcorrelated := h.correlated_step hstep
  obtain ⟨rfl, rfl⟩ | ⟨k, stream, i, rfl, -, -, hslot, rfl⟩ |
    ⟨k, stream, reading, rfl, -, rfl⟩ | ⟨rfl, rfl⟩ := clientStep_cases hstep
  · exact {
      numbered := h.numbered
      last := fun i hi => congrArg (· + 1) (Option.some.inj hi).symm
      waiting := fun _ _ => Option.some_ne_none _ }
  · refine { numbered := ?_, last := fun i hi => (by cases hi), waiting := ?_ }
    · intro g hg
      rcases List.mem_append.mp hg with hg | hg
      · exact Nat.lt_succ_of_lt (h.numbered g hg)
      · rw [List.mem_singleton.mp hg]
        exact Nat.lt_succ_self _
    · -- the only unanswered call has been answered
      intro hgiven hlt
      obtain ⟨-, -, hone, -⟩ := hcorrelated.mp hgiven
      exact absurd hlt (by simp only [hone]; omega)
  · exact {
      numbered := fun g hg => Nat.lt_succ_of_lt (h.numbered g hg)
      last := h.last
      waiting := fun hgiven => absurd hgiven (h.not_correlated_pass reading) }
  · exact { h with waiting := h.waiting }

/-- The client starts with an empty slot. -/
theorem init : SlotInv {} where
  numbered g hg := by cases hg
  last i hi := by cases hi
  waiting _ hlt := absurd hlt (Nat.lt_irrefl 0)

end SlotInv

/-- **The calls get their own responses.** For every sequence of calls and responses in the
order of the requests, with whatever else happens to the connection: the responses so far have
each been given exactly once, to the callback of their own call, if and only if each came while
`query` was reading and exactly one call was unanswered, and was accepted. -/
theorem correlated_iff {es : List HttpClientEvent} {s : HttpClientState}
    (hrun : Run HttpClientState.step (fun _ _ => True) {} es s) :
    s.Correlated ↔ Run HttpClientState.step Sequential {} es s := by
  have hiff := hrun.holds_iff (I := SlotInv) (P := HttpClientState.Correlated)
    (fun _ _ _ h _ hstep => h.step hstep) (fun _ _ _ h _ hstep => h.correlated_step hstep)
    SlotInv.init
  rw [hiff]
  exact and_iff_right fun k hk => absurd hk (Nat.not_lt_zero k)

/-- The response `200 OK` with a body of two bytes. -/
def okResponse : HttpClientEvent := .response 2 (responseBytes 200 twoByteFields [104, 105])

/-- `query` accepts it. -/
theorem acceptedResponse_ok :
    AcceptedResponse 2 (responseBytes 200 twoByteFields [104, 105]) :=
  (filled_iff _ _).mp ⟨_, query_ok received_ok⟩

/-- The state after two calls one after the other. -/
def afterSequential : HttpClientState where
  started := 2
  arrived := 2
  given := [(0, 0), (1, 1)]

/-- Two calls one after the other get their own responses. -/
theorem correlated_sequential : afterSequential.Correlated := by
  have hrun : Run HttpClientState.step (fun _ _ => True) {}
      [.call, okResponse, .call, okResponse] afterSequential := Run.of_exec (by decide +kernel)
  refine (correlated_iff hrun).mpr ?_
  have h₁ : HttpClientState.step { started := 1, slot := some 0 } okResponse =
      some { started := 1, arrived := 1, given := [(0, 0)] } := by decide +kernel
  have h₂ : HttpClientState.step
      { started := 2, slot := some 1, arrived := 1, given := [(0, 0)] } okResponse =
      some afterSequential := by decide +kernel
  exact .cons trivial rfl (.cons ⟨rfl, rfl, acceptedResponse_ok⟩ h₁
    (.cons trivial rfl (.cons ⟨rfl, rfl, acceptedResponse_ok⟩ h₂ (.nil _))))

/-- The state after two calls and the response to the first. -/
def afterOverlapping : HttpClientState where
  started := 2
  arrived := 1
  given := [(0, 1)]

/-- **Two calls, and the response to the first**: it goes to the callback of the second. -/
theorem not_correlated_overlapping :
    Run HttpClientState.step (fun _ _ => True) {} [.call, .call, okResponse] afterOverlapping ∧
      ¬afterOverlapping.Correlated := by
  refine ⟨Run.of_exec (by decide +kernel), fun h => ?_⟩
  have hfilter := h 0 Nat.zero_lt_one
  exact absurd hfilter (by decide)

end Aquarius
