import Aquarius.TcpCorrelation

/-!
# Lost Completions

All calls of a client receive from one channel, and a call throws away a value that is not
its own `src`. A response is therefore lost on its call when the notification reaches another
receiver, or nobody: the callback is gone from `buffers_`, so no later frame with that `src`
posts it again, and the call stays in `wait`.

`HeadWaits` is the condition under which this does not happen: whenever `filling_buffer` is
done with the response of a call that has not returned, that call is the oldest receiver on
the channel. Both a call still in `async_send` and one with an older receiver in front of it
violate it.

## Main results

* `not_lost_of_run`: as long as every step meets `HeadWaits`, no call is lost.
* `lost_of_not_headWaits`: the first step that does not meet it loses a call.
* `stuck_step`: a call that is lost in `wait` never returns.
* `lost_secondFirst`: with two calls waiting, answered in the other order, one is lost.
-/

open Decoding Transition

namespace Aquarius

/-- Call `i` is lost: it has not returned, its response has been processed, and the
notification is not in its hands. -/
def Lost (s : ClientState) (i : ℕ) : Prop :=
  ∃ c, s.calls[i]? = some c ∧ c.phase.finished = false ∧ c.answered = true ∧
    c.phase ≠ .resumed c.src

/-- A response is completed only while its call, if it has not returned, is the oldest one
pending on the channel. -/
def HeadWaits (s : ClientState) (e : ClientEvent) : Prop :=
  ∀ i ∈ completes s e, ∀ c ∈ s.calls[i]?, c.phase.finished = false → s.receivers.head? = some i

instance (s : ClientState) (e : ClientEvent) : Decidable (HeadWaits s e) :=
  inferInstanceAs (Decidable (∀ i ∈ completes s e, ∀ c ∈ s.calls[i]?,
    c.phase.finished = false → s.receivers.head? = some i))

/-! ### No call is lost -/

/-- An answered call that has not returned has its notification. -/
def Notified (c : Call) : Prop :=
  c.phase.finished = false → c.answered = true → c.phase = .resumed c.src

/-- No call is lost. -/
def NoneLost (s : ClientState) : Prop := ∀ (i : ℕ) (c : Call), s.calls[i]? = some c → Notified c

namespace NoneLost

variable {s : ClientState} {i : ℕ} {c : Call} {src : BitVec 32}

/-- A call in a phase without a notification is not answered. -/
private theorem not_answered (h : NoneLost s) (hc : s.calls[i]? = some c)
    (hunfinished : c.phase.finished = false) (hphase : c.phase ≠ .resumed c.src) :
    ¬ c.answered = true :=
  fun hanswered => hphase (h i c hc hunfinished hanswered)

/-- A call that is not answered changes its phase, or a call returns. -/
private theorem setPhase (h : NoneLost s) {phase : Phase} (hc : s.calls[i]? = some c)
    (hanswered : phase.finished = false → ¬ c.answered = true) :
    NoneLost (s.setPhase i phase) := by
  intro j d hd
  obtain ⟨d₀, hd₀, rfl⟩ := getElem?_modify_eq_some.mp hd
  split
  · rename_i hij
    obtain rfl : c = d₀ := Option.some.inj (by rw [← hc, hij, hd₀])
    exact fun hunfinished ha => absurd ha (hanswered hunfinished)
  · exact h j d₀ hd₀

/-- The receiver a value is posted to was not answered before. -/
private theorem notified_of_receiving (h : NoneLost s) (hchannel : ChannelInv s)
    (hhead : s.receivers.head? = some i) (hc : s.calls[i]? = some c) (phase : Phase) :
    Notified { c with phase := phase } := by
  obtain ⟨d, hd, hphase⟩ := hchannel.receiving i (List.mem_of_head? hhead)
  obtain rfl : c = d := Option.some.inj (by rw [← hc, hd])
  have hanswered := h.not_answered hc (by rw [hphase]; rfl) (by rw [hphase]; simp)
  exact fun _ ha => absurd ha hanswered

/-- A value that answers nobody is posted. -/
private theorem trySend (h : NoneLost s) (hchannel : ChannelInv s) (v : BitVec 32) :
    NoneLost (s.trySend v) := by
  intro j d hd
  obtain ⟨d₀, hd₀, rfl⟩ := getElem?_trySend.mp hd
  split
  · rename_i hhead
    exact h.notified_of_receiving hchannel hhead hd₀ _
  · exact h j d₀ hd₀

/-- The end of `filling_buffer` for a call that is the oldest receiver, or has returned. -/
private theorem complete (h : NoneLost s) (hchannel : ChannelInv s)
    (hfind : s.find src = some i)
    (hwaits : ∀ c ∈ s.calls[i]?, c.phase.finished = false → s.receivers.head? = some i) :
    NoneLost (s.complete src i) := by
  obtain ⟨c, hc, hsrc, -⟩ := hchannel.registered src i hfind
  intro j d hd
  obtain ⟨d₀, hd₀, rfl⟩ := getElem?_complete.mp hd
  by_cases hij : i = j
  · subst hij
    obtain rfl : c = d₀ := Option.some.inj (by rw [← hc, hd₀])
    by_cases hi : s.receivers.head? = some i
    · rw [if_pos hi, if_pos rfl]
      intro _ _
      simp only [hsrc]
    · rw [if_neg hi, if_pos rfl]
      exact fun hunfinished _ => absurd (hwaits c hc hunfinished) hi
  · rw [if_neg hij]
    split
    · rename_i hhead
      exact h.notified_of_receiving hchannel hhead hd₀ _
    · exact h j d₀ hd₀

end NoneLost

/-- **The step lemma**: a step that completes a response only for the oldest receiver loses
no call. -/
theorem noneLost_step {s s' : ClientState} {e : ClientEvent} (h : NoneLost s)
    (hchannel : ChannelInv s) (hwaits : HeadWaits s e) (hstep : clientStep s e = some s') :
    NoneLost s' := by
  have heffect := effect_of_clientStep hstep
  rw [HeadWaits] at hwaits
  generalize completes s e = erased at heffect hwaits
  cases heffect with
  | start src kind =>
      intro j d hd
      rcases List.mem_append.mp (List.mem_of_getElem? hd) with hmem | hmem
      · obtain ⟨k, hk⟩ := List.mem_iff_getElem?.mp hmem
        exact h k d hk
      · rw [List.mem_singleton.mp hmem]
        intro _ hanswered
        cases hanswered
  | sent hc hphase _ =>
      exact h.setPhase hc fun _ =>
        h.not_answered hc (by rw [hphase]; rfl) (by rw [hphase]; simp)
  | wait hc hphase =>
      refine h.setPhase hc fun _ => ?_
      rcases hphase with hphase | ⟨v, hphase, hv⟩
      · exact h.not_answered hc (by rw [hphase]; rfl) (by rw [hphase]; simp)
      · refine h.not_answered hc (by rw [hphase]; rfl) ?_
        rw [hphase]
        exact fun heq => hv (Phase.resumed.inj heq)
  | returned hc _ =>
      refine h.setPhase hc fun hunfinished => ?_
      cases hunfinished
  | ended _ => exact h
  | unknown _ =>
      refine NoneLost.trySend ?_ ?_ 0
      · exact h
      · exact { hchannel with }
  | invoked src payload _ _ _ => exact h
  | completed _ _ hfind =>
      refine NoneLost.complete ?_ { hchannel with } hfind (hwaits _ (Option.mem_some_self _))
      exact h

/-- **No lost completion, while the oldest receiver is answered.** In every run in which
every response that `filling_buffer` completes, for a call that has not returned, finds that
call as the oldest receiver on the channel, no state has a call that is or will be blocked in
`wait` although its notification went to another waiter or was dropped. -/
theorem not_lost_of_run {es : List ClientEvent} {s : ClientState}
    (hrun : Run clientStep HeadWaits {} es s) (i : ℕ) : ¬ Lost s i := by
  have hboth : NoneLost s ∧ ChannelInv s := by
    refine hrun.invariant (I := fun s => NoneLost s ∧ ChannelInv s) ?_
      ⟨fun _ _ hc => absurd hc (by simp), channelInv_init⟩
    rintro s e s' ⟨hnone, hchannel⟩ hwaits hstep
    exact ⟨noneLost_step hnone hchannel hwaits hstep, channelInv_step hchannel hstep⟩
  rintro ⟨c, hc, hunfinished, hanswered, hphase⟩
  exact hphase (hboth.1 i c hc hunfinished hanswered)

/-- Two calls that wait, answered in the order they were made. -/
def firstFirst : List ClientEvent :=
  [.start 1 .asyncCall, .start 2 .asyncCall, .sendDone 0 true, .receive 0, .sendDone 1 true,
    .receive 1, .frame 1 [0], .funcDone, .frame 2 [0], .funcDone, .resume 0, .resume 1]

/-- The state these calls end in. -/
def afterFirstFirst : ClientState where
  calls := [⟨1, .asyncCall, .returned, true⟩, ⟨2, .asyncCall, .returned, true⟩]
  received := [(1, [0]), (2, [0])]
  invoked := [⟨0, 1, [0], [], []⟩, ⟨1, 2, [0], [], []⟩]
  processed := [1, 2]

/-- Both calls return when they are answered in order. -/
theorem not_lost_firstFirst : ¬ Lost afterFirstFirst 1 := by
  have hrun : Run clientStep HeadWaits {} firstFirst afterFirstFirst := Run.of_exec rfl
  exact not_lost_of_run hrun 1

/-! ### The condition is exact -/

/-- A completion for a call that is not the oldest receiver loses that call, when the sources
are fresh. -/
theorem lost_of_not_headWaits {es : List ClientEvent} {s s' : ClientState} {e : ClientEvent}
    (hrun : Run clientStep Fresh {} es s) (hstep : clientStep s e = some s')
    (hwaits : ¬ HeadWaits s e) : ∃ i, Lost s' i := by
  obtain ⟨hinv, hchannel⟩ := clientInv_of_run hrun
  simp only [HeadWaits, not_forall] at hwaits
  obtain ⟨i, hi, c, hc, hunfinished, hhead⟩ := hwaits
  have heffect := effect_of_clientStep hstep
  rw [Option.mem_def.mp hi] at heffect
  cases heffect with
  | completed _ _ hfind =>
      obtain ⟨d, hd, hsrc, hanswered⟩ := hchannel.registered _ i hfind
      obtain rfl : c = d := Option.some.inj (hc.symm.trans hd)
      refine ⟨i, { c with answered := true }, getElem?_complete.mpr ⟨c, hc, ?_⟩, hunfinished,
        rfl, ?_⟩
      · rw [if_neg hhead, if_pos rfl]
      · intro hphase
        rw [(hinv.calls i c hc).resumed hphase] at hanswered
        cases hanswered

/-- Call `i` is lost in `wait`: its response has been processed, and nobody is registered under its
source any more. -/
def Stuck (s : ClientState) (i : ℕ) : Prop :=
  ∃ c, s.calls[i]? = some c ∧ c.src ≠ 0 ∧ c.answered = true ∧ s.find c.src = none ∧
    (c.phase = .receiving ∨ ∃ v, c.phase = .resumed v ∧ v ≠ c.src)

/-- A stuck call has not returned. -/
theorem Stuck.unfinished {s : ClientState} {i : ℕ} (h : Stuck s i) :
    s.calls[i]?.any (·.phase.finished) = false := by
  obtain ⟨c, hc, -, -, -, hphase⟩ := h
  rw [hc, Option.any_some]
  rcases hphase with hphase | ⟨v, hphase, -⟩ <;> rw [hphase] <;> rfl

/-- **A lost call never returns**: as long as the generator does not draw its source again, nobody
posts this source, and the call throws away whatever else it is given. -/
theorem stuck_step {s s' : ClientState} {e : ClientEvent} {i : ℕ} (h : Stuck s i)
    (hfresh : Fresh s e) (hstep : clientStep s e = some s') : Stuck s' i := by
  have hunfinished := h.unfinished
  obtain ⟨c, hc, hzero, hanswered, hfind, hphase⟩ := h
  rw [hc, Option.any_some] at hunfinished
  have heffect := effect_of_clientStep hstep
  generalize completes s e = erased at heffect
  cases heffect with
  | start src kind =>
      have hsrc : c.src ≠ src := hfresh.2 c (List.mem_of_getElem? hc) hunfinished
      exact ⟨c, getElem?_concat_of_some hc _, hzero, hanswered,
        (lookup_registRespFunc c.src).trans ((if_neg hsrc).trans hfind), hphase⟩
  | @sent _ j d phase hd hsending _ =>
      have hij : j ≠ i := by
        rintro rfl
        obtain rfl : c = d := Option.some.inj (hc.symm.trans hd)
        rcases hphase with hphase | ⟨v, hphase, -⟩ <;> rw [hphase] at hsending <;> cases hsending
      exact ⟨c, getElem?_modify_eq_some.mpr ⟨c, hc, (if_neg hij).symm⟩, hzero, hanswered, hfind,
        hphase⟩
  | @wait _ j d hd _ =>
      by_cases hij : j = i
      · exact ⟨{ c with phase := .receiving },
          getElem?_modify_eq_some.mpr ⟨c, hc, (if_pos hij).symm⟩, hzero, hanswered, hfind,
          Or.inl rfl⟩
      · exact ⟨c, getElem?_modify_eq_some.mpr ⟨c, hc, (if_neg hij).symm⟩, hzero, hanswered, hfind,
          hphase⟩
  | @returned _ j d hd hreturned =>
      have hij : j ≠ i := by
        rintro rfl
        obtain rfl : c = d := Option.some.inj (hc.symm.trans hd)
        rcases hphase with hphase | ⟨v, hphase, hv⟩
        · rw [hphase] at hreturned
          cases hreturned
        · exact hv (Phase.resumed.inj (hphase.symm.trans hreturned))
      exact ⟨c, getElem?_modify_eq_some.mpr ⟨c, hc, (if_neg hij).symm⟩, hzero, hanswered, hfind,
        hphase⟩
  | ended _ => exact ⟨c, hc, hzero, hanswered, hfind, hphase⟩
  | @unknown _ received src hsub =>
      by_cases hhead : s.receivers.head? = some i
      · refine ⟨{ c with phase := .resumed 0 },
          getElem?_trySend.mpr ⟨c, hc, (if_pos hhead).symm⟩, hzero, hanswered, ?_,
          Or.inr ⟨0, rfl, hzero.symm⟩⟩
        rw [trySend_eq]
        exact hfind
      · refine ⟨c, getElem?_trySend.mpr ⟨c, hc, (if_neg hhead).symm⟩, hzero, hanswered, ?_, hphase⟩
        rw [trySend_eq]
        exact hfind
  | invoked _ _ _ _ _ => exact ⟨c, hc, hzero, hanswered, hfind, hphase⟩
  | @completed _ j src received hsub hquery hfound =>
      have hsrc : src ≠ c.src := by
        rintro rfl
        rw [hfind] at hfound
        cases hfound
      have herased : (s.erase src).lookup c.src = none :=
        (lookup_erase c.src).trans ((if_neg hsrc.symm).trans hfind)
      have hkept : (if j = i then { c with answered := true } else c) = c := by
        split
        · rw [← hanswered]
        · rfl
      by_cases hhead : s.receivers.head? = some i
      · refine ⟨{ c with phase := .resumed src }, getElem?_complete.mpr ⟨c, hc, ?_⟩, hzero,
          hanswered, ?_, Or.inr ⟨src, rfl, hsrc⟩⟩
        · rw [if_pos hhead, hkept]
        · rw [ClientState.complete, trySend_eq]
          exact herased
      · refine ⟨c, getElem?_complete.mpr ⟨c, hc, ?_⟩, hzero, hanswered, ?_, hphase⟩
        · rw [if_neg hhead, hkept]
        · rw [ClientState.complete, trySend_eq]
          exact herased

/-- Two calls that wait, the second of which is answered first. -/
def secondFirst : List ClientEvent :=
  [.start 1 .asyncCall, .start 2 .asyncCall, .sendDone 0 true, .receive 0, .sendDone 1 true,
    .receive 1, .frame 2 [0], .funcDone, .resume 0]

/-- **A lost completion.** The notification for the second call wakes the first one, which
discards it; the second call stays blocked in `wait`. -/
theorem lost_secondFirst :
    ∃ s, Run clientStep Fresh {} secondFirst s ∧ Lost s 1 ∧
      ∃ c, s.calls[1]? = some c ∧ c.phase = .receiving :=
  ⟨{ calls := [⟨1, .asyncCall, .receiving, false⟩, ⟨2, .asyncCall, .receiving, true⟩]
     buffers := [(1, 0)]
     receivers := [1, 0]
     received := [(2, [0])]
     invoked := [⟨1, 2, [0], [], []⟩]
     processed := [2] },
    Run.of_exec rfl, ⟨_, rfl, rfl, rfl, by decide⟩, _, rfl, rfl⟩

end Aquarius
