import Aquarius.Library.Decoder

/-!
# Byte Streams in Segments

A connection delivers a byte stream in segments of arbitrary size. `readExact` collects a
requested number of bytes from as many segments as that takes, or fails when the stream
ends first. The two specification lemmas say that the segmentation does not matter:
`readExact_eq_none_iff` and `readExact_eq_some` speak of the concatenation only.
-/

namespace Decoding

/-- Read exactly `n` bytes off a segmented stream; `none` when it ends before that. -/
def readExact : List Bytes → ℕ → Option (Bytes × List Bytes)
  | [], n => if n = 0 then some ([], []) else none
  | segment :: stream, n =>
      if n ≤ segment.length then some (segment.take n, segment.drop n :: stream)
      else (readExact stream (n - segment.length)).map fun r => (segment ++ r.1, r.2)

/-- A read fails exactly when the stream is too short. -/
theorem readExact_eq_none_iff {stream : List Bytes} {n : ℕ} :
    readExact stream n = none ↔ stream.flatten.length < n := by
  induction stream generalizing n with
  | nil =>
      rw [readExact, List.flatten_nil, List.length_nil]
      split
      · rename_i h
        simp [h]
      · rename_i h
        simp only [true_iff]
        omega
  | cons segment stream ih =>
      rw [readExact, List.flatten_cons, List.length_append]
      split
      · rename_i h
        simp only [reduceCtorEq, false_iff]
        omega
      · rw [Option.map_eq_none_iff, ih]
        omega

/-- A read that succeeds returns the first `n` bytes and leaves the others. -/
theorem readExact_eq_some {stream rest : List Bytes} {n : ℕ} {bs : Bytes}
    (h : readExact stream n = some (bs, rest)) :
    bs = stream.flatten.take n ∧ rest.flatten = stream.flatten.drop n := by
  induction stream generalizing n bs with
  | nil =>
      rw [readExact] at h
      split at h
      · obtain ⟨rfl, rfl⟩ := Prod.mk.inj (Option.some.inj h)
        simp
      · exact absurd h (by simp)
  | cons segment stream ih =>
      rw [readExact] at h
      rw [List.flatten_cons]
      split at h
      · rename_i hn
        obtain ⟨rfl, rfl⟩ := Prod.mk.inj (Option.some.inj h)
        rw [List.take_append_of_le_length hn, List.flatten_cons,
          List.drop_append_of_le_length hn]
        exact ⟨rfl, rfl⟩
      · rename_i hn
        obtain ⟨⟨cs, rest'⟩, hread, heq⟩ := Option.map_eq_some_iff.mp h
        obtain ⟨rfl, rfl⟩ := Prod.mk.inj heq
        obtain ⟨rfl, hrest⟩ := ih hread
        have hle : segment.length ≤ n := by omega
        rw [List.take_append, List.drop_append, List.take_of_length_le hle,
          List.drop_of_length_le hle, hrest]
        exact ⟨rfl, rfl⟩

/-- **Reading a block**: a stream that starts with `bs` delivers it, however it is cut. -/
theorem readExact_append {stream : List Bytes} {bs s : Bytes}
    (h : stream.flatten = bs ++ s) :
    ∃ rest, readExact stream bs.length = some (bs, rest) ∧ rest.flatten = s := by
  obtain ⟨⟨cs, rest⟩, hread⟩ : ∃ r, readExact stream bs.length = some r := by
    rw [← Option.ne_none_iff_exists', Ne, readExact_eq_none_iff, h, List.length_append]
    omega
  obtain ⟨hcs, hrest⟩ := readExact_eq_some hread
  rw [h, List.take_left] at hcs
  rw [h, List.drop_left] at hrest
  exact ⟨rest, by rw [hread, hcs], hrest⟩

end Decoding
