import Mathlib.Tactic.Common
import Mathlib.Data.List.Basic

/-!
# Framed Decoding of Byte Strings

A decoder reads a value off the front of a byte string and hands back the bytes it has
not touched, or fails. This module fixes that shape (`Decoder`) and the one property a
round trip of a self-delimiting format is made of: `Reads d bs v` says that `d` returns
`v` on every buffer that starts with `bs`, and stops exactly at the end of `bs`.

The property composes along the constructors of the decoder monad, so a round trip of a
compound format is assembled from the round trips of its parts and never unfolds them:

* `Reads.pure`, `Reads.bind`, `Reads.map`, `Reads.bind_pure` and `Reads.check` for
  straight-line decoders;
* `Reads.readMany` for a counted sequence of equal elements;
* `Reads.foldRead` for a counted loop over an accumulator;
* `Reads.readBytes` for a block of known length.
-/

namespace Decoding

/-- A byte string. -/
abbrev Bytes := List UInt8

/-- A decoder: it consumes a prefix of the buffer and returns a value, or fails with an
error of type `ε`. -/
abbrev Decoder (ε α : Type) := StateT Bytes (Except ε) α

variable {ε α β σ : Type}

/-- `Reads d bs v`: on every buffer that starts with `bs`, the decoder `d` returns `v` and
leaves exactly what followed `bs`. -/
def Reads (d : Decoder ε α) (bs : Bytes) (v : α) : Prop :=
  ∀ s : Bytes, d.run (bs ++ s) = .ok (v, s)

/-- Returning a value consumes nothing. -/
theorem Reads.pure (v : α) : Reads (Pure.pure v : Decoder ε α) [] v := fun _ => rfl

/-- **Sequencing.** The blocks of two decoders run one after the other are concatenated. -/
theorem Reads.bind {d : Decoder ε α} {f : α → Decoder ε β} {bs cs : Bytes} {v : α} {w : β}
    (hd : Reads d bs v) (hf : Reads (f v) cs w) : Reads (d >>= f) (bs ++ cs) w := by
  intro s
  rw [StateT.run_bind, List.append_assoc, hd (cs ++ s)]
  exact hf s

/-- Post-processing the value of a decoder does not move its end. -/
theorem Reads.map {d : Decoder ε α} {bs : Bytes} {v : α} (hd : Reads d bs v) (f : α → β) :
    Reads (f <$> d) bs (f v) := by
  intro s
  rw [StateT.run_map, hd s]
  rfl

/-- A decoder followed by a pure function of its value. -/
theorem Reads.bind_pure {d : Decoder ε α} {bs : Bytes} {v : α} (hd : Reads d bs v)
    (f : α → β) : Reads (d >>= fun x => Pure.pure (f x)) bs (f v) := by
  have h := hd.bind (f := fun x => Pure.pure (f x)) (Reads.pure (f v))
  rwa [List.append_nil] at h

/-- A check that consumes nothing, followed by a decoder. -/
theorem Reads.check {d : Decoder ε α} {d' : Decoder ε β} {bs : Bytes} {v : α} {w : β}
    (hd : Reads d [] v) (hd' : Reads d' bs w) : Reads (d >>= fun _ => d') bs w :=
  hd.bind (f := fun _ => d') hd'

/-! ### Blocks of known length -/

/-- Read a block of exactly `n` bytes, failing with `e` when fewer are left. -/
def readBytes (e : ε) (n : ℕ) : Decoder ε Bytes := fun buf =>
  if buf.length < n then .error e else .ok (buf.take n, buf.drop n)

/-- A block of the announced length is read as it stands. -/
theorem Reads.readBytes (e : ε) (bs : Bytes) : Reads (readBytes e bs.length) bs bs := by
  intro s
  have hlen : ¬ (bs ++ s).length < bs.length := by
    rw [List.length_append]
    omega
  simp only [StateT.run, Decoding.readBytes, if_neg hlen, List.take_left, List.drop_left]

/-! ### Counted loops -/

/-- Run the decoder `n` times and collect the values in order. -/
def readMany (d : Decoder ε α) : ℕ → Decoder ε (List α)
  | 0 => Pure.pure []
  | n + 1 => do
      let v ← d
      let vs ← readMany d n
      Pure.pure (v :: vs)

/-- **Counted sequences.** When every element of `vs` is read off its own block, the whole
sequence is read off the concatenation of the blocks. -/
theorem Reads.readMany {d : Decoder ε α} (enc : α → Bytes) {vs : List α}
    (h : ∀ v ∈ vs, Reads d (enc v) v) :
    Reads (readMany d vs.length) (vs.flatMap enc) vs := by
  induction vs with
  | nil => exact Reads.pure []
  | cons v vs ih =>
      have hv : Reads d (enc v) v := h v (by simp)
      have hvs : Reads (Decoding.readMany d vs.length) (vs.flatMap enc) vs :=
        ih fun w hw => h w (by simp [hw])
      rw [List.flatMap_cons]
      exact hv.bind (hvs.bind_pure (List.cons v))

/-- Run a decoding step `n` times over an accumulator. -/
def foldRead (step : σ → Decoder ε σ) : ℕ → σ → Decoder ε σ
  | 0, acc => Pure.pure acc
  | n + 1, acc => do
      let acc ← step acc
      foldRead step n acc

/-- **Counted loops over an accumulator.** When the step reads the block of each element of
`xs` into the accumulator by `next`, the loop computes the left fold of `next`. -/
theorem Reads.foldRead {step : σ → Decoder ε σ} (enc : β → Bytes) (next : σ → β → σ)
    {xs : List β} (acc : σ) (h : ∀ a, ∀ x ∈ xs, Reads (step a) (enc x) (next a x)) :
    Reads (foldRead step xs.length acc) (xs.flatMap enc) (xs.foldl next acc) := by
  induction xs generalizing acc with
  | nil => exact Reads.pure acc
  | cons x xs ih =>
      have hx : Reads (step acc) (enc x) (next acc x) := h acc x (by simp)
      have hxs : Reads (Decoding.foldRead step xs.length (next acc x)) (xs.flatMap enc)
          (xs.foldl next (next acc x)) :=
        ih (next acc x) fun a y hy => h a y (by simp [hy])
      rw [List.flatMap_cons, List.foldl_cons]
      exact hx.bind hxs

end Decoding
