import Aquarius.Library.Transition
import Aquarius.TcpFraming
import Mathlib.Data.List.Permutation

/-!
# Concurrent Writers of One Session

Every sender of a session ends in `basic_session::async_send` (`basic_session.hpp`), an
`asio::async_write` on the shared socket. Such a write is a sequence of `write_some` steps,
each of which transfers some of the bytes that are left; between two of them any other
coroutine may run, and nothing in the session keeps a second writer out. The transition
system here has the writers with the number of bytes each has transferred, and the stream
the peer sees.

## Main results

* `wholeFrames_of_run`: as long as nobody writes while another writer is inside its frame,
  the stream is a concatenation of whole frames, up to the one in progress.
* `not_wholeFrames_interleaved`: without that, two frames can end up inside each other.
-/

open Decoding Transition

namespace Aquarius

/-! ### The writers -/

/-- A call of `async_send`: the frame it sends and the bytes transferred so far. -/
structure Writer where
  sending : Sending
  written : ℕ := 0

namespace Writer

variable (order : ByteOrder) (w : Writer)

/-- The bytes that are left to transfer. -/
def rest : Bytes := (w.sending.bytes order).drop w.written

/-- The whole frame has been transferred. -/
def complete : Bool := (w.sending.bytes order).length ≤ w.written

/-- Some of the frame has been transferred, but not all of it. -/
def InProgress : Prop := 0 < w.written ∧ w.complete order = false

end Writer

/-- The writers of a session in the order they started, and the bytes sent so far. -/
structure WriteState where
  writers : List Writer := []
  stream : Bytes := []

/-- A sender starts, or writer `i` transfers `n` bytes. -/
inductive WriteEvent where
  | asyncSend (sending : Sending)
  | writeSome (i n : ℕ)

/-- One step of the session. -/
def writeStep (order : ByteOrder) (s : WriteState) : WriteEvent → Option WriteState
  | .asyncSend sending => some { s with writers := s.writers ++ [{ sending }] }
  | .writeSome i n =>
      match s.writers[i]? with
      | none => none
      | some w =>
          if 0 < n ∧ n ≤ (w.rest order).length then
            some { writers := s.writers.set i { w with written := w.written + n }
                   stream := s.stream ++ (w.rest order).take n }
          else none

/-- The frames that have been sent in full. -/
def WriteState.completed (order : ByteOrder) (s : WriteState) : List Sending :=
  (s.writers.filter (Writer.complete order)).map Writer.sending

/-- The stream is made of whole frames: those that are complete, in some order, and behind
them what there is of the frame in progress. -/
def WholeFrames (order : ByteOrder) (s : WriteState) : Prop :=
  ∃ frames : List Sending, frames.Perm (s.completed order) ∧
    (s.stream = wire order frames ∨
      ∃ w ∈ s.writers, w.InProgress order ∧
        s.stream = wire order frames ++ (w.sending.bytes order).take w.written)

/-- A transfer happens only while no other writer is inside its frame. -/
def Exclusive (order : ByteOrder) (s : WriteState) : WriteEvent → Prop
  | .asyncSend _ => True
  | .writeSome i _ => ∀ j (_ : j < s.writers.length), j ≠ i → ¬ s.writers[j].InProgress order

instance (order : ByteOrder) (w : Writer) : Decidable (w.InProgress order) :=
  inferInstanceAs (Decidable (_ ∧ _))

instance (order : ByteOrder) (s : WriteState) (e : WriteEvent) :
    Decidable (Exclusive order s e) :=
  match e with
  | .asyncSend _ => .isTrue trivial
  | .writeSome i _ =>
      inferInstanceAs (Decidable (∀ j (_ : j < s.writers.length), j ≠ i →
        ¬ s.writers[j].InProgress order))

/-! ### What a step does -/

variable {order : ByteOrder} {s s' : WriteState}

/-- A transfer moves the next bytes of one writer to the stream. -/
theorem writeStep_writeSome {i n : ℕ} (h : writeStep order s (.writeSome i n) = some s') :
    ∃ pre w post, s.writers = pre ++ w :: post ∧ pre.length = i ∧ 0 < n ∧
      w.written + n ≤ (w.sending.bytes order).length ∧
      s' = { writers := pre ++ { w with written := w.written + n } :: post
             stream := s.stream ++ (w.rest order).take n } := by
  rw [writeStep] at h
  split at h
  · cases h
  · rename_i w hw
    split at h
    · rename_i hn
      obtain ⟨hi, rfl⟩ := List.getElem?_eq_some_iff.mp hw
      refine ⟨s.writers.take i, s.writers[i], s.writers.drop (i + 1), ?_, ?_, hn.1, ?_, ?_⟩
      · rw [List.getElem_cons_drop, List.take_append_drop]
      · exact List.length_take_of_le (Nat.le_of_lt hi)
      · have hrest := hn.2
        rw [Writer.rest, List.length_drop] at hrest
        omega
      · rw [← Option.some.inj h, List.set_eq_take_append_cons_drop, if_pos hi]
    · cases h

/-- Nobody but the writer itself is inside a frame when an exclusive transfer happens. -/
private theorem Exclusive.not_inProgress {pre post : List Writer} {w w' : Writer} {n : ℕ}
    (hg : Exclusive order s (.writeSome pre.length n)) (hs : s.writers = pre ++ w :: post)
    (hw' : w' ∈ pre ∨ w' ∈ post) : ¬ w'.InProgress order := by
  have hlen : s.writers.length = pre.length + (post.length + 1) := by
    rw [hs, List.length_append, List.length_cons]
  rcases hw' with hw' | hw'
  · obtain ⟨j, hj, rfl⟩ := List.getElem_of_mem hw'
    have h := hg j (by omega) (Nat.ne_of_lt hj)
    simpa only [hs, List.getElem_append_left hj] using h
  · obtain ⟨j, hj, rfl⟩ := List.getElem_of_mem hw'
    have h := hg (pre.length + (j + 1)) (by omega) (by omega)
    simpa only [hs, List.getElem_append_right (Nat.le_add_right ..), Nat.add_sub_cancel_left,
      List.getElem_cons_succ] using h

/-- The bytes of a transfer continue those already sent. -/
private theorem take_written_append (w : Writer) (n : ℕ) :
    (w.sending.bytes order).take w.written ++ (w.rest order).take n =
      (w.sending.bytes order).take (w.written + n) :=
  List.take_add.symm

/-! ### Exclusive runs -/

/-- The invariant: `WholeFrames`, and when the stream ends with a whole frame then nobody is
inside one. -/
def Contiguous (order : ByteOrder) (s : WriteState) : Prop :=
  ∃ frames : List Sending, frames.Perm (s.completed order) ∧
    ((s.stream = wire order frames ∧ ∀ w ∈ s.writers, ¬ w.InProgress order) ∨
      ∃ w ∈ s.writers, w.InProgress order ∧
        s.stream = wire order frames ++ (w.sending.bytes order).take w.written)

/-- Starting a writer sends nothing. -/
private theorem contiguous_asyncSend (sending : Sending) (h : Contiguous order s) :
    Contiguous order { s with writers := s.writers ++ [{ sending }] } := by
  obtain ⟨frames, hperm, hstream⟩ := h
  have hnew : ¬ Writer.InProgress order { sending } := fun hw => Nat.lt_irrefl 0 hw.1
  have hincomplete : Writer.complete order { sending } = false := by
    rw [Writer.complete, decide_eq_false_iff_not, Sending.length_bytes]
    exact Nat.not_le_of_lt (Nat.lt_add_right _ (Nat.zero_lt_succ 7))
  refine ⟨frames, ?_, ?_⟩
  · rw [WriteState.completed, List.filter_append, List.filter_cons_of_neg (by simp [hincomplete]),
      List.filter_nil, List.append_nil]
    exact hperm
  · rcases hstream with ⟨hstream, hnone⟩ | ⟨w, hw, hprogress, hstream⟩
    · refine Or.inl ⟨hstream, fun w hw => ?_⟩
      rcases List.mem_append.mp hw with hw | hw
      · exact hnone w hw
      · rw [List.mem_singleton.mp hw]
        exact hnew
    · exact Or.inr ⟨w, List.mem_append_left _ hw, hprogress, hstream⟩

/-- Before an exclusive transfer the stream ends with what its writer has sent. -/
private theorem stream_eq_of_contiguous {pre post : List Writer} {w : Writer} {n : ℕ}
    (hg : Exclusive order s (.writeSome pre.length n)) (hs : s.writers = pre ++ w :: post)
    (hlt : w.written < (w.sending.bytes order).length) (h : Contiguous order s) :
    ∃ frames : List Sending, frames.Perm (s.completed order) ∧
      s.stream = wire order frames ++ (w.sending.bytes order).take w.written := by
  obtain ⟨frames, hperm, ⟨hstream, hnone⟩ | ⟨w', hw', hprogress, hstream⟩⟩ := h
  · -- nobody is inside a frame, so the writer has not begun
    have hzero : w.written = 0 := by
      by_contra hne
      refine hnone w (by rw [hs]; simp) ⟨Nat.pos_of_ne_zero hne, ?_⟩
      rw [Writer.complete, decide_eq_false_iff_not]
      omega
    exact ⟨frames, hperm, by rw [hzero, List.take_zero, List.append_nil, hstream]⟩
  · rw [hs, List.mem_append, List.mem_cons] at hw'
    rcases hw' with hw' | rfl | hw'
    · exact absurd hprogress (hg.not_inProgress hs (Or.inl hw'))
    · exact ⟨frames, hperm, hstream⟩
    · exact absurd hprogress (hg.not_inProgress hs (Or.inr hw'))

/-- A transfer that finishes its frame leaves nobody inside one. -/
private theorem contiguous_finish {pre post : List Writer} {w : Writer} {n : ℕ}
    {frames : List Sending} (hs' : s'.writers = pre ++ { w with written := w.written + n } :: post)
    (hothers : ∀ w' : Writer, w' ∈ pre ∨ w' ∈ post → ¬ w'.InProgress order)
    (hperm : frames.Perm (((pre ++ post).filter (Writer.complete order)).map Writer.sending))
    (hdone : (w.sending.bytes order).length ≤ w.written + n)
    (hstream : s'.stream = wire order frames ++ (w.sending.bytes order).take (w.written + n)) :
    Contiguous order s' := by
  have hcomplete : Writer.complete order { w with written := w.written + n } = true := by
    rw [Writer.complete, decide_eq_true_iff]
    exact hdone
  refine ⟨frames ++ [w.sending], ?_, Or.inl ⟨?_, ?_⟩⟩
  · rw [WriteState.completed, hs', List.filter_append, List.filter_cons_of_pos hcomplete,
      List.map_append, List.map_cons]
    rw [List.filter_append, List.map_append] at hperm
    exact (List.perm_append_singleton _ _).trans ((hperm.cons _).trans List.perm_middle.symm)
  · rw [hstream, List.take_of_length_le hdone, wire, wire, List.flatMap_append,
      List.flatMap_singleton]
  · intro w' hw'
    rw [hs', List.mem_append, List.mem_cons] at hw'
    rcases hw' with hw' | rfl | hw'
    · exact hothers w' (Or.inl hw')
    · exact fun hprogress => absurd hcomplete (by rw [hprogress.2]; exact Bool.false_ne_true)
    · exact hothers w' (Or.inr hw')

/-- Any other transfer leaves its writer as the one inside a frame. -/
private theorem contiguous_continue {pre post : List Writer} {w : Writer} {n : ℕ}
    {frames : List Sending} (hs' : s'.writers = pre ++ { w with written := w.written + n } :: post)
    (hperm : frames.Perm (((pre ++ post).filter (Writer.complete order)).map Writer.sending))
    (hn : 0 < n) (hlt : w.written + n < (w.sending.bytes order).length)
    (hstream : s'.stream = wire order frames ++ (w.sending.bytes order).take (w.written + n)) :
    Contiguous order s' := by
  have hincomplete : Writer.complete order { w with written := w.written + n } = false := by
    rw [Writer.complete, decide_eq_false_iff_not]
    exact Nat.not_le_of_lt hlt
  refine ⟨frames, ?_, Or.inr ⟨{ w with written := w.written + n }, by simp [hs'], ?_, hstream⟩⟩
  · rw [WriteState.completed, hs', List.filter_append,
      List.filter_cons_of_neg (by simp [hincomplete]), ← List.filter_append]
    exact hperm
  · exact ⟨Nat.add_pos_right _ hn, hincomplete⟩

/-- **The step lemma**: an exclusive step keeps the stream in whole frames. -/
theorem contiguous_step {e : WriteEvent} (h : Contiguous order s) (hg : Exclusive order s e)
    (hstep : writeStep order s e = some s') : Contiguous order s' := by
  cases e with
  | asyncSend sending =>
      rw [← Option.some.inj hstep]
      exact contiguous_asyncSend sending h
  | writeSome i n =>
      obtain ⟨pre, w, post, hs, rfl, hn, hle, rfl⟩ := writeStep_writeSome hstep
      obtain ⟨frames, hperm, hstream⟩ := stream_eq_of_contiguous hg hs (by omega) h
      have hold : w.complete order = false := by
        rw [Writer.complete, decide_eq_false_iff_not]
        omega
      rw [WriteState.completed, hs, List.filter_append, List.filter_cons_of_neg (by simp [hold]),
        ← List.filter_append] at hperm
      have hstream' : s.stream ++ (w.rest order).take n =
          wire order frames ++ (w.sending.bytes order).take (w.written + n) := by
        rw [hstream, List.append_assoc, take_written_append]
      rcases Nat.lt_or_ge (w.written + n) (w.sending.bytes order).length with hlt | hdone
      · exact contiguous_continue rfl hperm hn hlt hstream'
      · exact contiguous_finish rfl (fun w' => hg.not_inProgress hs) hperm hdone hstream'

/-- **Whole frames under exclusive writers.** In every run in which no writer transfers
bytes while another one is inside its frame, the stream is a concatenation of frames exactly
as their senders built them, with at most a part of one more frame behind them. -/
theorem wholeFrames_of_run (order : ByteOrder) {es : List WriteEvent} {s : WriteState}
    (hrun : Run (writeStep order) (Exclusive order) {} es s) : WholeFrames order s := by
  have hinit : Contiguous order {} :=
    ⟨[], List.Perm.refl _, Or.inl ⟨rfl, fun _ hw => absurd hw List.not_mem_nil⟩⟩
  have hinv : Contiguous order s :=
    hrun.invariant (fun _ _ _ h hg hstep => contiguous_step h hg hstep) hinit
  obtain ⟨frames, hperm, ⟨hstream, -⟩ | hprogress⟩ := hinv
  · exact ⟨frames, hperm, Or.inl hstream⟩
  · exact ⟨frames, hperm, Or.inr hprogress⟩

/-! ### Two interleaved frames -/

/-- Two requests of one byte each. -/
def firstSending : Sending := .byRequest 1 [1]

@[inherit_doc firstSending]
def secondSending : Sending := .byRequest 2 [2]

/-- One writer after the other. -/
def sequential : List WriteEvent :=
  [.asyncSend firstSending, .asyncSend secondSending, .writeSome 0 4, .writeSome 0 5,
    .writeSome 1 9]

/-- The second writer sends its frame behind the first byte of the first one. -/
def interleaved : List WriteEvent :=
  [.asyncSend firstSending, .asyncSend secondSending, .writeSome 0 1, .writeSome 1 9,
    .writeSome 0 8]

/-- Both writers have finished. -/
def bothFinished (stream : Bytes) : WriteState where
  writers := [⟨firstSending, 9⟩, ⟨secondSending, 9⟩]
  stream := stream

/-- The sequential run is exclusive and ends with whole frames. -/
theorem wholeFrames_sequential :
    WholeFrames .little
      (bothFinished [1, 0, 0, 0, 1, 0, 0, 0, 1, 1, 0, 0, 0, 2, 0, 0, 0, 2]) := by
  have hrun : Run (writeStep .little) (Exclusive .little) {} sequential
      (bothFinished [1, 0, 0, 0, 1, 0, 0, 0, 1, 1, 0, 0, 0, 2, 0, 0, 0, 2]) :=
    Run.of_exec rfl
  exact wholeFrames_of_run .little hrun

/-- **Interleaved frames.** The interleaved run is one the session can take, both writers
finish, and the stream is not made of their frames in either order. -/
theorem not_wholeFrames_interleaved :
    ∃ s, Run (writeStep .little) (fun _ _ => True) {} interleaved s ∧
      (∀ w ∈ s.writers, w.complete .little = true) ∧ ¬ WholeFrames .little s := by
  refine ⟨bothFinished [1, 1, 0, 0, 0, 2, 0, 0, 0, 2, 0, 0, 0, 1, 0, 0, 0, 1],
    Run.of_exec rfl, by decide, ?_⟩
  rintro ⟨frames, hperm, hstream⟩
  rcases hstream with hstream | ⟨w, hw, hprogress, -⟩
  · rcases List.perm_pair.mp hperm with rfl | rfl
    · exact absurd hstream (by decide)
    · exact absurd hstream (by decide)
  · exact absurd hprogress (by revert w hw; decide)

end Aquarius
