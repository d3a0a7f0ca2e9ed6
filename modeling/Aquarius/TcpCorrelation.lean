import Aquarius.TcpClient

/-!
# Responses Reach Their Own Calls

The `src` of a call comes from the uuid generator. `Fresh` is what is assumed of it: a new
call gets a value that is not zero and that no call has which has not returned. Under this
assumption the table `buffers_` and the channel keep the calls apart, whatever frames come in
and in whatever order.

## Main results

* `clientInv_step`: the invariant that ties `buffers_`, the channel and the calls together.
* `correlation`: callbacks are invoked at most once and only for frames with their own `src`,
  and `wait` returns only after such a frame.
-/

open Decoding Transition

namespace Aquarius

/-! ### The invariant -/

/-- What holds of call `i`, by the table and the sources processed so far. -/
structure CallInv (find : BitVec 32 → Option ℕ) (processed : List (BitVec 32)) (i : ℕ)
    (c : Call) : Prop where
  nonzero : c.src ≠ 0
  /-- until it is answered, a call that has not returned is registered -/
  owner : c.phase.finished = false → c.answered = false → find c.src = some i
  /-- a call that is given its own source, or has returned from `wait`, is answered -/
  resumed : c.phase = .resumed c.src → c.answered = true
  returned : c.phase = .returned → c.answered = true
  processed : c.answered = true → c.src ∈ processed

/-- What holds of an invocation: it is for a frame that was received, with the source of its
call. -/
structure InvocationInv (calls : List Call) (find : BitVec 32 → Option ℕ) (query : Query)
    (received : List (BitVec 32 × Bytes)) (v : Invocation) : Prop where
  received : (v.src, v.payload) ∈ received
  buffer : fromDatasString.run v.payload = .ok (v.router, v.buffer)
  src : ∃ c, calls[v.call]? = some c ∧ c.src = v.src
  /-- a callback that has been invoked and is still in the table is being invoked -/
  invoking : find v.src = some v.call → query = .invoking v.src ∨ query = .ended

/-- The invariant of the client. -/
structure ClientInv (s : ClientState) : Prop where
  calls : ∀ i c, s.calls[i]? = some c → CallInv s.find s.processed i c
  invocations : ∀ v ∈ s.invoked, InvocationInv s.calls s.find s.query s.received v
  once : (s.invoked.map Invocation.call).Nodup

/-- The generator gives a new call a source that is not zero and not that of a call that has
not returned. -/
def Fresh (s : ClientState) : ClientEvent → Prop
  | .start src _ => src ≠ 0 ∧ ∀ c ∈ s.calls, c.phase.finished = false → c.src ≠ src
  | _ => True

instance (s : ClientState) (e : ClientEvent) : Decidable (Fresh s e) :=
  match e with
  | .start src _ =>
      inferInstanceAs (Decidable (src ≠ 0 ∧ ∀ c ∈ s.calls, c.phase.finished = false → c.src ≠ src))
  | .sendDone .. | .receive .. | .frame .. | .funcDone | .funcThrows | .recvFails | .resume .. =>
      .isTrue trivial

namespace ClientInv

variable {s : ClientState} {i : ℕ} {c : Call} {src : BitVec 32}

/-- The calls change, but neither their sources nor the table. -/
private theorem withCalls (h : ClientInv s) {calls : List Call} (receivers : List ℕ)
    (hcalls : ∀ j d, calls[j]? = some d → CallInv s.find s.processed j d)
    (hsrc : ∀ (j : ℕ) (d : Call), s.calls[j]? = some d →
      ∃ d' : Call, calls[j]? = some d' ∧ d'.src = d.src) :
    ClientInv { s with calls := calls, receivers := receivers } := by
  refine { h with calls := hcalls, invocations := ?_ }
  intro v hv
  have hinv := h.invocations v hv
  obtain ⟨d, hd, hdsrc⟩ := hinv.src
  obtain ⟨d', hd', hsame⟩ := hsrc v.call d hd
  exact { hinv with src := ⟨d', hd', hsame.trans hdsrc⟩ }

/-- A call that has not returned changes its phase; it is notified or returns only when it is
answered. -/
private theorem setPhase (h : ClientInv s) (hc : s.calls[i]? = some c)
    (hunfinished : c.phase.finished = false) {phase : Phase}
    (hanswered : phase = .resumed c.src ∨ phase = .returned → c.answered = true)
    (receivers : List ℕ) : ClientInv { s.setPhase i phase with receivers := receivers } := by
  refine h.withCalls receivers ?_ ?_
  · intro j d hd
    obtain ⟨d₀, hd₀, rfl⟩ := getElem?_modify_eq_some.mp hd
    have hinv := h.calls j d₀ hd₀
    split
    · rename_i hij
      obtain rfl : c = d₀ := Option.some.inj (by rw [← hc, hij, hd₀])
      exact {
        nonzero := hinv.nonzero
        owner := fun _ => hinv.owner hunfinished
        resumed := fun hphase => hanswered (Or.inl hphase)
        returned := fun hphase => hanswered (Or.inr hphase)
        processed := hinv.processed }
    · exact hinv
  · intro j d hd
    refine ⟨_, getElem?_modify_eq_some.mpr ⟨d, hd, rfl⟩, ?_⟩
    split <;> rfl

/-- Posting a value to the channel: it must not reach an unanswered call of that source. -/
private theorem trySend (h : ClientInv s) (hchannel : ChannelInv s) {v : BitVec 32}
    (hv : ∀ (j : ℕ) (d : Call), s.calls[j]? = some d → d.phase = .receiving → d.src = v →
      d.answered = true) :
    ClientInv (s.trySend v) := by
  rw [trySend_eq]
  refine h.withCalls _ ?_ ?_
  · intro j d hd
    obtain ⟨d₀, hd₀, rfl⟩ := getElem?_trySend.mp hd
    have hinv := h.calls j d₀ hd₀
    split
    · rename_i hhead
      obtain ⟨d₁, hd₁, hphase⟩ := hchannel.receiving j (List.mem_of_head? hhead)
      obtain rfl : d₀ = d₁ := Option.some.inj (by rw [← hd₀, hd₁])
      refine { hinv with owner := fun _ => hinv.owner ?_, resumed := ?_, returned := ?_ }
      · rw [hphase]
        rfl
      · exact fun hresumed => hv j d₀ hd₀ hphase (Phase.resumed.inj hresumed).symm
      · intro hreturned
        cases hreturned
    · exact hinv
  · intro j d hd
    refine ⟨_, getElem?_trySend.mpr ⟨d, hd, rfl⟩, ?_⟩
    split <;> rfl

/-- Frames have been received. -/
private theorem receive (h : ClientInv s) {received : List (BitVec 32 × Bytes)}
    (hsub : s.received ⊆ received) : ClientInv { s with received := received } :=
  { h with
    invocations := fun v hv =>
      { h.invocations v hv with received := hsub (h.invocations v hv).received } }

/-- The calls when the entry of call `i` is erased: call `i` is answered and needs none, and the
others keep theirs. -/
private theorem calls_erased (h : ClientInv s) (hc : s.calls[i]? = some c) (hsrc : c.src = src)
    (hfind : s.find src = some i) {j : ℕ} {d : Call}
    (hd : (s.calls.modify i fun c => { c with answered := true })[j]? = some d) :
    CallInv (fun k => (s.erase src).lookup k) (s.processed ++ [src]) j d := by
  obtain ⟨d₀, hd₀, rfl⟩ := getElem?_modify_eq_some.mp hd
  have hinv := h.calls j d₀ hd₀
  split
  · rename_i hij
    obtain rfl : c = d₀ := Option.some.inj (by rw [← hc, hij, hd₀])
    exact {
      nonzero := hinv.nonzero
      owner := fun _ hanswered => by cases hanswered
      resumed := fun _ => rfl
      returned := fun _ => rfl
      processed := fun _ => List.mem_append_right _ (List.mem_singleton.mpr hsrc) }
  · rename_i hij
    refine { hinv with
      owner := ?_
      processed := fun hanswered => List.mem_append_left _ (hinv.processed hanswered) }
    intro hphase hanswered
    have howner := hinv.owner hphase hanswered
    have hne : d₀.src ≠ src := by
      rintro rfl
      exact hij (Option.some.inj (by rw [← hfind, howner]))
    exact (lookup_erase _).trans ((if_neg hne).trans howner)

/-- A callback that has been invoked is not in the table once the entry of the source `query`
was at is erased. -/
private theorem lookup_erase_invoked (h : ClientInv s)
    (hquery : s.query = .running ∨ s.query = .invoking src) {v : Invocation}
    (hv : v ∈ s.invoked) : (s.erase src).lookup v.src ≠ some v.call := by
  intro hfound
  rw [lookup_erase] at hfound
  split at hfound
  · cases hfound
  · rename_i hk
    rcases (h.invocations v hv).invoking hfound with hold | hold <;> rcases hquery with hq | hq <;>
      rw [hq] at hold
    · cases hold
    · exact absurd (Query.invoking.inj hold).symm hk
    · cases hold
    · cases hold

/-- Everything `complete` does but posting the source. -/
private theorem erased (h : ClientInv s) (hc : s.calls[i]? = some c) (hsrc : c.src = src)
    (hfind : s.find src = some i) (hquery : s.query = .running ∨ s.query = .invoking src) :
    ClientInv { s with
      calls := s.calls.modify i fun c => { c with answered := true }
      buffers := s.erase src
      query := .running
      processed := s.processed ++ [src] } := by
  refine { h with
    calls := fun j d hd => h.calls_erased hc hsrc hfind hd
    invocations := fun v hv => ?_ }
  have hinv := h.invocations v hv
  obtain ⟨d, hd, hdsrc⟩ := hinv.src
  refine { hinv with
    src := ⟨_, getElem?_modify_eq_some.mpr ⟨d, hd, rfl⟩, ?_⟩
    invoking := fun hfound => absurd hfound (h.lookup_erase_invoked hquery hv) }
  split <;> exact hdsrc

/-- The end of `filling_buffer`: no other call waits for the source that is posted, since an
unanswered receiver of that source would own the entry just erased. -/
private theorem complete (h : ClientInv s) (hchannel : ChannelInv s)
    (hfind : s.find src = some i) (hquery : s.query = .running ∨ s.query = .invoking src) :
    ClientInv (s.complete src i) := by
  obtain ⟨c, hc, hsrc, -⟩ := hchannel.registered src i hfind
  have herased := h.erased hc hsrc hfind hquery
  refine herased.trySend (hchannel.erased hfind) ?_
  intro j d hd hphase hdsrc
  by_contra hanswered
  have howner := (herased.calls j d hd).owner (by rw [hphase]; rfl)
    (Bool.not_eq_true _ ▸ hanswered)
  have herase := (lookup_erase d.src).symm.trans howner
  rw [if_pos hdsrc] at herase
  cases herase

/-- A new call with a fresh source. -/
private theorem start (h : ClientInv s) {kind : CallKind} (hfresh : Fresh s (.start src kind)) :
    ClientInv { s with
      calls := s.calls ++ [{ src := src, kind := kind }]
      buffers := s.registRespFunc src s.calls.length } := by
  refine { h with calls := ?_, invocations := ?_ }
  · intro j d hd
    rcases getElem?_concat_cases hd with ⟨rfl, rfl⟩ | hd
    · exact {
        nonzero := hfresh.1
        owner := fun _ _ => (lookup_registRespFunc _).trans (if_pos rfl)
        resumed := fun hphase => by cases hphase
        returned := fun hphase => by cases hphase
        processed := fun hanswered => by cases hanswered }
    · have hinv := h.calls j d hd
      refine { hinv with owner := fun hphase hanswered => ?_ }
      have hne : d.src ≠ src := hfresh.2 d (List.mem_of_getElem? hd) hphase
      exact (lookup_registRespFunc _).trans ((if_neg hne).trans (hinv.owner hphase hanswered))
  · intro v hv
    have hinv := h.invocations v hv
    obtain ⟨d, hd, hdsrc⟩ := hinv.src
    refine { hinv with
      src := ⟨d, getElem?_concat_of_some hd _, hdsrc⟩
      invoking := fun hfound => ?_ }
    obtain hfound := (lookup_registRespFunc v.src).symm.trans hfound
    by_cases hk : v.src = src
    · -- the new entry is not that of a call that exists
      rw [if_pos hk] at hfound
      obtain ⟨hlt, -⟩ := List.getElem?_eq_some_iff.mp hd
      rw [← Option.some.inj hfound] at hlt
      exact absurd hlt (Nat.lt_irrefl _)
    · rw [if_neg hk] at hfound
      exact hinv.invoking hfound

/-- A callback is invoked: it has not been before, or it would not be in the table while
`query` is between two frames. -/
private theorem invoke (h : ClientInv s) (hchannel : ChannelInv s) (hquery : s.query = .running)
    (hfind : s.find src = some i) {payload router buffer : Bytes}
    (hreceived : (src, payload) ∈ s.received)
    (hbuffer : fromDatasString.run payload = .ok (router, buffer)) :
    ClientInv { s with
      query := .invoking src
      invoked := s.invoked ++ [⟨i, src, payload, router, buffer⟩] } := by
  obtain ⟨c, hc, hsrc, -⟩ := hchannel.registered src i hfind
  have hother : ∀ v ∈ s.invoked, s.find v.src ≠ some v.call := by
    intro v hv hfound
    rcases (h.invocations v hv).invoking hfound with hq | hq <;> rw [hquery] at hq <;> cases hq
  refine { h with invocations := ?_, once := ?_ }
  · intro v hv
    rcases List.mem_append.mp hv with hv | hv
    · exact { h.invocations v hv with invoking := fun hfound => absurd hfound (hother v hv) }
    · rw [List.mem_singleton.mp hv]
      exact ⟨hreceived, hbuffer, ⟨c, hc, hsrc⟩, fun _ => Or.inl rfl⟩
  · rw [List.map_append, List.map_singleton]
    refine List.nodup_append.mpr ⟨h.once, List.pairwise_singleton _ i, ?_⟩
    rintro a ha b hb rfl
    obtain ⟨v, hv, rfl⟩ := List.mem_map.mp ha
    obtain ⟨d, hd, hdsrc⟩ := (h.invocations v hv).src
    have hcall : v.call = i := List.mem_singleton.mp hb
    obtain rfl : c = d := Option.some.inj (by rw [← hc, ← hcall, hd])
    exact hother v hv (by rw [← hdsrc, hsrc, hfind, hcall])

end ClientInv

/-- **The step lemma**: every step with a fresh source keeps the invariant. -/
theorem clientInv_step {s s' : ClientState} {e : ClientEvent} (h : ClientInv s)
    (hchannel : ChannelInv s) (hfresh : Fresh s e) (hstep : clientStep s e = some s') :
    ClientInv s' := by
  have heffect := effect_of_clientStep hstep
  generalize completes s e = erased at heffect
  cases heffect with
  | start src kind => exact h.start hfresh
  | sent hc hphase hnext =>
      refine h.setPhase hc (by rw [hphase]; rfl) ?_ s.receivers
      rcases hnext with rfl | rfl <;> rintro (hbad | hbad) <;> cases hbad
  | wait hc hphase =>
      refine h.setPhase hc ?_ ?_ _
      · rcases hphase with hphase | ⟨v, hphase, -⟩ <;> rw [hphase] <;> rfl
      · rintro (hbad | hbad) <;> cases hbad
  | returned hc hphase =>
      refine h.setPhase hc (by rw [hphase]; rfl) (fun _ => ?_) s.receivers
      exact (h.calls _ _ hc).resumed hphase
  | ended hsub =>
      have hframe := h.receive hsub
      exact { hframe with
        invocations := fun v hv =>
          { hframe.invocations v hv with invoking := fun _ => Or.inr rfl } }
  | unknown hsub =>
      -- zero is nobody's source
      have hframe := h.receive hsub
      refine ClientInv.trySend ?_ ?_ fun j d hd _ hzero => absurd hzero (h.calls j d hd).nonzero
      · exact { hframe with
          calls := fun j d hd =>
            { h.calls j d hd with
              processed := fun hanswered =>
                List.mem_append_left _ ((h.calls j d hd).processed hanswered) } }
      · exact { hchannel with }
  | invoked src payload hquery hfind hbuffer =>
      have hframe := h.receive (List.subset_append_left s.received [(src, payload)])
      exact hframe.invoke { hchannel with } hquery hfind
        (List.mem_append_right _ (List.mem_singleton_self _)) hbuffer
  | completed hsub hquery hfind =>
      have hframe := h.receive hsub
      exact hframe.complete { hchannel with } hfind hquery

/-- The client starts without calls. -/
theorem clientInv_init : ClientInv {} where
  calls i c hc := by cases hc
  invocations v hv := by cases hv
  once := List.nodup_nil

/-- The invariants hold after every run of calls with fresh sources. -/
theorem clientInv_of_run {es : List ClientEvent} {s : ClientState}
    (hrun : Run clientStep Fresh {} es s) : ClientInv s ∧ ChannelInv s := by
  refine hrun.invariant (I := fun s => ClientInv s ∧ ChannelInv s) ?_
    ⟨clientInv_init, channelInv_init⟩
  rintro s e s' ⟨h, hchannel⟩ hfresh hstep
  exact ⟨clientInv_step h hchannel hfresh hstep, channelInv_step hchannel hstep⟩

/-! ### Correlation -/

/-- **Response correlation.** In every run of calls with fresh sources, whatever frames come
in: every callback is invoked at most once; what it is invoked with is the payload, behind
its router, of a frame that was received with the source of its call; and a call has
returned from `wait` only if its callback has been processed by `filling_buffer`, for a frame
with its source. -/
theorem correlation {es : List ClientEvent} {s : ClientState}
    (hrun : Run clientStep Fresh {} es s) :
    (s.invoked.map Invocation.call).Nodup ∧
    (∀ v ∈ s.invoked, (∃ c, s.calls[v.call]? = some c ∧ c.src = v.src) ∧
      (v.src, v.payload) ∈ s.received ∧
      fromDatasString.run v.payload = .ok (v.router, v.buffer)) ∧
    (∀ (i : ℕ) (c : Call), s.calls[i]? = some c → c.phase = .returned →
      c.answered = true ∧ c.src ∈ s.processed) := by
  obtain ⟨hinv, -⟩ := clientInv_of_run hrun
  refine ⟨hinv.once, fun v hv => ?_, fun i c hc hphase => ?_⟩
  · have hv := hinv.invocations v hv
    exact ⟨hv.src, hv.received, hv.buffer⟩
  · have hanswered := (hinv.calls i c hc).returned hphase
    exact ⟨hanswered, (hinv.calls i c hc).processed hanswered⟩

/-- A call that is woken for an unknown source first, then answered, and answered again. -/
def duplicateAnswer : List ClientEvent :=
  [.start 5 .asyncCall, .sendDone 0 true, .receive 0, .frame 9 [0], .resume 0,
    .frame 5 [1, 47, 7], .funcDone, .resume 0, .frame 5 [1, 47, 8]]

/-- The state the duplicate answer leads to. -/
def afterDuplicateAnswer : ClientState where
  calls := [⟨5, .asyncCall, .returned, true⟩]
  received := [(9, [0]), (5, [1, 47, 7]), (5, [1, 47, 8])]
  invoked := [⟨0, 5, [1, 47, 7], [47], [7]⟩]
  processed := [9, 5, 5]

/-- Correlation in the run with a duplicate answer. -/
theorem correlation_duplicateAnswer :
    (afterDuplicateAnswer.invoked.map Invocation.call).Nodup ∧
      ∃ c, afterDuplicateAnswer.calls[0]? = some c ∧ c.phase = .returned ∧
        c.src ∈ afterDuplicateAnswer.processed := by
  have hrun : Run clientStep Fresh {} duplicateAnswer afterDuplicateAnswer := Run.of_exec rfl
  obtain ⟨honce, -, hreturned⟩ := correlation hrun
  exact ⟨honce, _, rfl, rfl, (hreturned 0 _ rfl rfl).2⟩

end Aquarius
