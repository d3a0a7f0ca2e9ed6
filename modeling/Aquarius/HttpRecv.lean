import Aquarius.Library.ByteStream
import Aquarius.Library.Extraction
import Aquarius.HttpProtocol

/-!
# Receiving an HTTP Body

`http::recv` (`ip/http.hpp`) runs after `async_read_until` has read up to the blank line and
some number of bytes beyond it. It looks for the text `Content-Length` in everything that is
in the buffer, converts what follows with `atoll`, and reads the difference between that
number and the size of the buffer. The buffer still holds the header block, so the difference
counts the bytes of the header as if they were bytes of the body.

`filter_key` returns a view, and `atoll` goes by its pointer: it reads on to the first byte
that is not part of the number, inside the view or not. A number that reaches the end of the
buffer, or does not fit, is undefined.

## Main results

* `contentLength_field`: the number `recv` works with is that of the field, when nothing
  mentions `Content-Length` before it.
* `complete_recv_iff`: exactly when the body is complete; for an ordinary message, only if it
  was read together with the header.
* `not_complete_recv_short`: a body of three bytes is missing.
-/

open Decoding

namespace Aquarius

/-! ### The header text -/

/-- A `std::string_view` into a buffer: its size, and the bytes from its pointer on to the end
of the buffer. -/
structure StringView where
  data : Bytes
  size : ℕ
  deriving DecidableEq, Repr

/-- `std::string_view::npos` -/
def npos : ℕ := 2 ^ 64 - 1

/-- `substr(pos, count)` -/
def substr (s : Bytes) (pos count : ℕ) : StringView where
  data := s.drop pos
  size := min count (s.length - pos)

/-- The bytes of a view. -/
def StringView.bytes (v : StringView) : Bytes := v.data.take v.size

/-- `"\r\n"` as a set of characters -/
def isCrlf (b : UInt8) : Bool := b == 13 || b == 10

/-- `':'` -/
def isColon (b : UInt8) : Bool := b == 58

/-- `filter_key`. Offsets are `std::size_t`; where the key matched, a colon follows it and the
offset behind that is inside the text. -/
def filterKey (header key : Bytes) : StringView :=
  match find key header with
  | none => ⟨[], 0⟩
  | some pos =>
      match findFirstOf isCrlf header pos with
      | none => ⟨[], 0⟩
      | some endPos =>
          let start := (findFirstOf isColon header pos).getD npos
          if (substr header pos (start - pos)).bytes = key then
            substr header ((start + 2) % 2 ^ 64) ((2 ^ 64 + endPos - start - 2) % 2 ^ 64)
          else ⟨[], 0⟩

/-- The values of `long long`. -/
def toLongLong (v : ℤ) : Option ℤ := if -2 ^ 63 ≤ v ∧ v < 2 ^ 63 then some v else none

/-- `std::atoll` on the bytes behind a pointer; `none` when it leaves them or when the number
does not fit. -/
def atoll (s : Bytes) : Option ℤ :=
  let signed := readSign (s.dropWhile isSpace)
  match readDigits 0 signed.2 with
  | (_, []) => none
  | (n, _ :: _) => toLongLong (if signed.1 then -n else n)

/-- The `content_length` of `recv`, before its conversion to `std::size_t`. -/
def contentLength (header : Bytes) : Option ℤ :=
  let str := filterKey header contentLengthKey
  if str.size = 0 then some 0 else atoll str.data

/-! ### `recv` -/

/-- How `recv` ends: with a buffer and what is left of the stream, with an error code, with an
exception, or undefined. -/
inductive RecvResult where
  | received (buffer : Bytes) (stream : List Bytes)
  | failed
  | thrown
  | undefined
  deriving DecidableEq, Repr

/-- `basic_session::async_read`: `prepare` throws when the buffer would exceed its maximal
size; a read that fails commits nothing. -/
def asyncRead (buffer : Bytes) (stream : List Bytes) (length : ℕ) : RecvResult :=
  if maxSize < buffer.length + length then .thrown
  else
    match readExact stream length with
    | none => .failed
    | some (bytes, stream) => .received (buffer ++ bytes) stream

/-- `http::recv` on the bytes in the buffer and the stream behind them. The subtraction is one
of `std::size_t`, its result is cast to `int64_t`. -/
def httpRecv (buffer : Bytes) (stream : List Bytes) : RecvResult :=
  match contentLength buffer with
  | none => .undefined
  | some v =>
      let contentLength := BitVec.ofInt 64 v
      if contentLength = 0 then .failed
      else
        let remainSize := (contentLength - BitVec.ofNat 64 buffer.length).toInt
        if 0 < remainSize then asyncRead buffer stream remainSize.toNat
        else .received buffer stream

/-- Where `recv` returns without error, the buffer starts with the header block and the whole
body. -/
def Complete (block body : Bytes) : RecvResult → Prop
  | .received buffer _ => block ++ body <+: buffer
  | .failed | .thrown => True
  | .undefined => False

/-! ### The remaining size -/

/-- The number `recv` works with fits `long long`. -/
theorem contentLength_bounds {header : Bytes} {v : ℤ} (h : contentLength header = some v) :
    -2 ^ 63 ≤ v ∧ v < 2 ^ 63 := by
  have hfits : ∀ w, toLongLong w = some v → -2 ^ 63 ≤ v ∧ v < 2 ^ 63 := by
    intro w hw
    rw [toLongLong] at hw
    split at hw
    · rename_i hw'
      rwa [← Option.some.inj hw]
    · cases hw
  simp only [contentLength, atoll] at h
  split at h
  · rw [← Option.some.inj h]
    decide
  · split at h
    · cases h
    · exact hfits _ h

/-- The conversion to `std::size_t` keeps zero and nothing else apart. -/
private theorem ofInt_eq_zero_iff {v : ℤ} (hv : -2 ^ 63 ≤ v ∧ v < 2 ^ 63) :
    BitVec.ofInt 64 v = 0 ↔ v = 0 := by
  constructor
  · intro hzero
    have hint := congrArg BitVec.toInt hzero
    rw [BitVec.toInt_ofInt, Int.bmod_eq_of_le (by omega) (by omega)] at hint
    exact hint
  · rintro rfl
    rfl

/-- The difference as `int64_t`: exact, unless it is below the range, where it wraps to a
number that no buffer can take. -/
private theorem toInt_sub_eq {v : ℤ} (hv : -2 ^ 63 ≤ v ∧ v < 2 ^ 63) {size : ℕ}
    (hsize : size ≤ maxSize) :
    (BitVec.ofInt 64 v - BitVec.ofNat 64 size).toInt =
      if -2 ^ 63 ≤ v - size then v - size else v - size + 2 ^ 64 := by
  rw [maxSize] at hsize
  rw [BitVec.toInt_sub, BitVec.toInt_ofInt, BitVec.toInt_ofNat',
    Int.bmod_eq_of_le (n := v) (by omega) (by omega),
    Int.bmod_eq_of_le (n := (size : ℤ)) (by omega) (by omega)]
  split
  · exact Int.bmod_eq_of_le (by omega) (by omega)
  · have hwrap := Int.add_mul_bmod_self_left (v - size) (2 ^ 64) 1
    rw [mul_one] at hwrap
    rw [← hwrap]
    push_cast
    exact Int.bmod_eq_of_le (by omega) (by omega)

/-- The header block and the body are at the front of a buffer with `k` bytes of the body and
`r` more bytes of the stream exactly when these are enough. -/
private theorem prefix_take_iff {block body following : Bytes} {k : ℕ} (hk : k ≤ body.length)
    (r : ℕ) :
    block ++ body <+: block ++ body.take k ++ (body.drop k ++ following).take r ↔
      body.length ≤ k + r := by
  have hjoin : body.take k ++ (body.drop k ++ following).take r =
      (body ++ following).take (k + r) := by
    rw [← List.drop_append_of_le_length hk, ← List.take_append_of_le_length hk]
    exact List.take_add.symm
  rw [List.append_assoc, hjoin, List.prefix_append_right_inj]
  constructor
  · intro hpre
    have hlen := hpre.length_le
    rw [List.length_take] at hlen
    omega
  · intro hle
    rw [List.take_append, List.take_of_length_le hle]
    exact List.prefix_append _ _

section Recv

variable {block body following : Bytes} {stream : List Bytes} {k : ℕ}

/-- What `recv` does when the number it finds is positive and not met by the buffer. -/
private theorem complete_asyncRead_iff (hk : k ≤ body.length)
    (hstream : stream.flatten = body.drop k ++ following) {r : ℕ}
    (hr : block.length + k + r ≤ maxSize) :
    Complete block body (asyncRead (block ++ body.take k) stream r) ↔ body.length ≤ k + r := by
  have hlen : (block ++ body.take k).length = block.length + k := by
    rw [List.length_append, List.length_take, Nat.min_eq_left hk]
  rw [asyncRead, hlen, if_neg (Nat.not_lt_of_le hr)]
  split
  · rename_i hread
    have hshort := readExact_eq_none_iff.mp hread
    rw [hstream, List.length_append, List.length_drop] at hshort
    simp only [Complete, true_iff]
    omega
  · rename_i bytes rest hread
    obtain ⟨rfl, -⟩ := readExact_eq_some hread
    rw [hstream, Complete]
    exact prefix_take_iff hk r

/-- What `recv` does with the number it finds. -/
private theorem complete_httpRecv_iff (hk : k ≤ body.length)
    (hsize : block.length + body.length ≤ maxSize)
    (hstream : stream.flatten = body.drop k ++ following) {v : ℤ}
    (hfound : contentLength (block ++ body.take k) = some v) :
    Complete block body (httpRecv (block ++ body.take k) stream) ↔
      k = body.length ∨ v = 0 ∨ (block.length + body.length : ℤ) ≤ v ∨
        v < (block.length + k : ℤ) - 2 ^ 63 := by
  have hlen : (block ++ body.take k).length = block.length + k := by
    rw [List.length_append, List.length_take, Nat.min_eq_left hk]
  have hv := contentLength_bounds hfound
  have hmax : maxSize = 2 ^ 63 - 1 := rfl
  rw [httpRecv, hfound]
  simp only [ofInt_eq_zero_iff hv, hlen,
    toInt_sub_eq hv (show block.length + k ≤ maxSize by omega)]
  split
  · rename_i hzero
    simp [Complete, hzero]
  · rename_i hzero
    push_cast
    split
    · rename_i hrange
      split
      · rename_i hpos
        rw [complete_asyncRead_iff hk hstream (by omega)]
        omega
      · rename_i hneg
        have hnone : block ++ body <+: block ++ body.take k ++
            (body.drop k ++ following).take 0 ↔ body.length ≤ k + 0 := prefix_take_iff hk 0
        rw [List.take_zero, List.append_nil] at hnone
        rw [Complete, hnone]
        omega
    · rename_i hrange
      rw [if_pos (by omega), asyncRead, hlen, if_pos (by omega), Complete]
      simp only [true_iff]
      omega

end Recv

/-- What `recv` does with a number that is not zero: it throws where the difference wraps, and
otherwise grows the buffer to that number. -/
theorem httpRecv_of_contentLength {buffer : Bytes} {v : ℤ}
    (hfound : contentLength buffer = some v) (hne : v ≠ 0) (hsize : buffer.length ≤ maxSize)
    (stream : List Bytes) :
    httpRecv buffer stream =
      if v < (buffer.length : ℤ) - 2 ^ 63 then .thrown
      else if buffer.length < v then asyncRead buffer stream (v - buffer.length).toNat
      else .received buffer stream := by
  have hv := contentLength_bounds hfound
  have hmax : maxSize = 2 ^ 63 - 1 := rfl
  have hdiff := toInt_sub_eq hv hsize
  rw [httpRecv, hfound]
  simp only [ofInt_eq_zero_iff hv, if_neg hne]
  by_cases hwrap : v < (buffer.length : ℤ) - 2 ^ 63
  · rw [if_neg (by omega)] at hdiff
    rw [hdiff, if_pos (by omega), if_pos hwrap, asyncRead, if_pos (by omega)]
  · rw [if_pos (by omega)] at hdiff
    rw [hdiff, if_neg hwrap]
    by_cases hlt : buffer.length < v
    · rw [if_pos (by omega), if_pos hlt]
    · rw [if_neg (by omega), if_neg hlt]

/-- What `async_read` has received: the buffer, and behind it as many bytes of the stream as were
asked for. -/
private theorem asyncRead_received {buffer received : Bytes} {stream rest : List Bytes} {n : ℕ}
    (h : asyncRead buffer stream n = .received received rest) :
    received.length = buffer.length + n ∧ n ≤ stream.flatten.length ∧
      rest.flatten.length ≤ stream.flatten.length := by
  rw [asyncRead] at h
  split at h
  · cases h
  · cases hread : readExact stream n with
    | none =>
        rw [hread] at h
        cases h
    | some r =>
        have henough : ¬ stream.flatten.length < n := by
          rw [← readExact_eq_none_iff, hread]
          exact Option.some_ne_none _
        obtain ⟨hbytes, hrest⟩ := readExact_eq_some hread
        rw [hread] at h
        cases h
        rw [List.length_append, hbytes, List.length_take, hrest, List.length_drop]
        omega

/-- A buffer that is received has the size of the number found, if it was shorter, and all of it was in
the buffer or in the stream. -/
theorem length_of_httpRecv {buffer received : Bytes} (hsize : buffer.length ≤ maxSize)
    {stream rest : List Bytes} (h : httpRecv buffer stream = .received received rest) :
    ∃ v, contentLength buffer = some v ∧ v ≠ 0 ∧ (buffer.length : ℤ) - 2 ^ 63 ≤ v ∧
      (received.length : ℤ) = max (buffer.length : ℤ) v ∧
      v ≤ buffer.length + stream.flatten.length := by
  cases hfound : contentLength buffer with
  | none =>
      rw [httpRecv, hfound] at h
      cases h
  | some v =>
      by_cases hne : v = 0
      · subst hne
        rw [httpRecv, hfound] at h
        cases h
      rw [httpRecv_of_contentLength hfound hne hsize] at h
      refine ⟨v, rfl, hne, ?_⟩
      split at h
      · cases h
      · split at h
        · obtain ⟨hlength, henough, -⟩ := asyncRead_received h
          omega
        · cases h
          omega

/-- **When `recv` returns without error**: the number found is not zero, does not wrap, and is not more
than there is in the buffer and the stream. -/
theorem exists_received_iff {buffer : Bytes} (hsize : buffer.length ≤ maxSize)
    (stream : List Bytes) :
    (∃ received rest, httpRecv buffer stream = .received received rest) ↔
      ∃ v, contentLength buffer = some v ∧ v ≠ 0 ∧ (buffer.length : ℤ) - 2 ^ 63 ≤ v ∧
        v ≤ buffer.length + stream.flatten.length := by
  constructor
  · rintro ⟨received, rest, h⟩
    obtain ⟨v, hfound, hne, hwrap, -, hle⟩ := length_of_httpRecv hsize h
    exact ⟨v, hfound, hne, hwrap, hle⟩
  · rintro ⟨v, hfound, hne, hwrap, hle⟩
    have hmax : maxSize = 2 ^ 63 - 1 := rfl
    have hv := contentLength_bounds hfound
    rw [httpRecv_of_contentLength hfound hne hsize, if_neg (by omega)]
    split
    · have henough : readExact stream (v - buffer.length).toNat ≠ none := by
        rw [Ne, readExact_eq_none_iff]
        omega
      obtain ⟨r, hread⟩ := Option.ne_none_iff_exists'.mp henough
      rw [asyncRead, if_neg (by omega), hread]
      exact ⟨_, _, rfl⟩
    · exact ⟨_, _, rfl⟩

/-- **Growing to a size.** With `cut` bytes of the stream in the buffer, and `m` the number of
them that the larger of the buffer's size and the number found amounts to, `recv` ends with the
first `m` bytes of the stream in the buffer. -/
theorem httpRecv_take {block stream : Bytes} {cut m : ℕ} {v : ℤ}
    (hfound : contentLength (block ++ stream.take cut) = some v) (hne : v ≠ 0)
    (hwrap : ((block ++ stream.take cut).length : ℤ) - 2 ^ 63 ≤ v)
    (hmax : max ((block ++ stream.take cut).length : ℤ) v = block.length + m)
    (hm : m ≤ stream.length) (hsize : block.length + m ≤ maxSize) :
    ∃ rest, httpRecv (block ++ stream.take cut) [stream.drop cut] =
        .received (block ++ stream.take m) rest ∧ rest.flatten = stream.drop m := by
  have hlen : (block ++ stream.take cut).length = block.length + min cut stream.length := by
    rw [List.length_append, List.length_take]
  rw [hlen] at hmax hwrap
  rw [httpRecv_of_contentLength hfound hne (by omega), hlen, if_neg (by omega)]
  by_cases hlt : ((block.length + min cut stream.length : ℕ) : ℤ) < v
  · have hcut : cut ≤ m := by omega
    have hcount : (v - ((block.length + min cut stream.length : ℕ) : ℤ)).toNat = m - cut := by
      omega
    have hroom : ¬ maxSize < (block ++ stream.take cut).length + (m - cut) := by omega
    have hmore : [stream.drop cut].flatten =
        (stream.drop cut).take (m - cut) ++ (stream.drop cut).drop (m - cut) := by
      rw [List.flatten_singleton, List.take_append_drop]
    have hgot : ((stream.drop cut).take (m - cut)).length = m - cut := by
      rw [List.length_take, List.length_drop]
      omega
    obtain ⟨rest, hread, hrest⟩ := readExact_append hmore
    rw [hgot] at hread
    refine ⟨rest, ?_, ?_⟩
    · rw [if_pos hlt, hcount, asyncRead, if_neg hroom, hread]
      simp only [List.append_assoc]
      rw [← List.take_add, Nat.add_sub_of_le hcut]
    · rw [hrest, List.drop_drop, Nat.add_sub_of_le hcut]
  · refine ⟨[stream.drop cut], ?_, ?_⟩
    · rw [if_neg hlt, List.take_eq_take_iff.mpr (show min cut stream.length = min m stream.length
        by omega)]
    · rw [List.flatten_singleton]
      by_cases hcut : cut = m
      · rw [hcut]
      · rw [List.drop_of_length_le (by omega), List.drop_of_length_le (by omega)]

/-- `recv` never puts bytes back into the stream. -/
theorem stream_of_httpRecv {buffer received : Bytes} {stream rest : List Bytes}
    (h : httpRecv buffer stream = .received received rest) :
    rest.flatten.length ≤ stream.flatten.length := by
  rw [httpRecv] at h
  split at h
  · cases h
  · simp only at h
    split at h
    · cases h
    · split at h
      · exact (asyncRead_received h).2.2
      · cases h
        exact le_rfl

/-! ### The field `Content-Length` -/

/-- A header block with the field `Content-Length: n` behind `pre`. -/
def fieldBlock (pre : Bytes) (n : ℕ) (post : Bytes) : Bytes :=
  pre ++ (contentLengthKey ++ (58 :: 32 :: (decimal n ++ (13 :: 10 :: post))))

/-- A digit is no line end. -/
theorem isCrlf_of_isDigit {b : UInt8} (hb : isDigit b = true) : isCrlf b = false := by
  rw [isCrlf, Bool.or_eq_false_iff, beq_eq_false_iff_ne, beq_eq_false_iff_ne]
  constructor
  · rintro rfl
    cases hb
  · rintro rfl
    cases hb

/-- `atoll` reads a numeral that is followed by a line end. -/
private theorem atoll_decimal {n : ℕ} (hn : n < 2 ^ 63) (s : Bytes) :
    atoll (decimal n ++ 13 :: s) = some (n : ℤ) := by
  have hdigits : readDigits 0 (decimal n ++ 13 :: s) = (n, 13 :: s) :=
    readDigits_decimal n (by
      intro b hb
      obtain rfl := Option.some.inj hb
      rfl)
  simp only [atoll, readSign_decimal, hdigits, Bool.false_eq_true, if_false]
  rw [toLongLong, if_pos (by omega)]

section Field

variable (pre post t : Bytes) (n : ℕ)

/-- The text in front of the colon, and behind it. -/
private theorem fieldBlock_append : fieldBlock pre n post ++ t =
    pre ++ (contentLengthKey ++ 58 :: (32 :: (decimal n ++ 13 :: (10 :: (post ++ t))))) := by
  simp [fieldBlock]

/-- The first colon behind the key is that of the field. -/
private theorem findFirstOf_colon_fieldBlock :
    findFirstOf isColon (fieldBlock pre n post ++ t) pre.length = some (pre.length + 14) := by
  have hkey : ∀ c ∈ contentLengthKey, isColon c = false := by
    simp [contentLengthKey, isColon]
  rw [fieldBlock_append]
  exact findFirstOf_append hkey rfl pre _

/-- The first line end behind the key is that of the field. -/
private theorem findFirstOf_crlf_fieldBlock :
    findFirstOf isCrlf (fieldBlock pre n post ++ t) pre.length =
      some (pre.length + (16 + (decimal n).length)) := by
  have hkey : ∀ c ∈ contentLengthKey, isCrlf c = false := by
    simp [contentLengthKey, isCrlf]
  have hline : ∀ c ∈ contentLengthKey ++ (58 :: 32 :: decimal n), isCrlf c = false := by
    intro c hc
    rcases List.mem_append.mp hc with hc | hc
    · exact hkey c hc
    · rcases List.mem_cons.mp hc with rfl | hc
      · rfl
      · rcases List.mem_cons.mp hc with rfl | hc
        · rfl
        · exact isCrlf_of_isDigit (isDigit_of_mem_decimal hc)
  have hsplit : fieldBlock pre n post ++ t =
      pre ++ ((contentLengthKey ++ (58 :: 32 :: decimal n)) ++ 13 :: (10 :: (post ++ t))) := by
    simp [fieldBlock]
  have hlength : (contentLengthKey ++ (58 :: 32 :: decimal n)).length =
      16 + (decimal n).length := by
    rw [List.length_append, List.length_cons, List.length_cons, show
      contentLengthKey.length = 14 from rfl]
    omega
  rw [hsplit, findFirstOf_append hline rfl pre, hlength]

/-- The text two characters behind the colon is the value. -/
private theorem drop_fieldBlock : (fieldBlock pre n post ++ t).drop (pre.length + 16) =
    decimal n ++ 13 :: (10 :: (post ++ t)) := by
  rw [fieldBlock_append, List.drop_append, List.drop_of_length_le (by omega), List.nil_append,
    Nat.add_sub_cancel_left]
  rfl

/-- What stands in front of the colon is the key. -/
private theorem substr_fieldBlock : (substr (fieldBlock pre n post ++ t) pre.length
    (pre.length + 14 - pre.length)).bytes = contentLengthKey := by
  have hkey : contentLengthKey.length = 14 := rfl
  rw [fieldBlock_append, StringView.bytes, substr, List.drop_left, Nat.add_sub_cancel_left]
  simp only [List.length_append, List.length_cons, hkey]
  rw [Nat.min_eq_left (by omega)]
  exact List.take_left' hkey

end Field

/-- `filter_key` finds the value of the field, when nothing mentions the key before it. -/
private theorem filterKey_field {pre post t : Bytes} {n : ℕ}
    (hfirst : find contentLengthKey (fieldBlock pre n post) = some pre.length)
    (hpre : pre.length + 16 < 2 ^ 64) (hdec : (decimal n).length < 2 ^ 64) :
    filterKey (fieldBlock pre n post ++ t) contentLengthKey =
      ⟨decimal n ++ 13 :: (10 :: (post ++ t)), (decimal n).length⟩ := by
  have hoffset : (pre.length + 14 + 2) % 2 ^ 64 = pre.length + 16 := Nat.mod_eq_of_lt hpre
  have hcount : (2 ^ 64 + (pre.length + (16 + (decimal n).length)) - (pre.length + 14) - 2) %
      2 ^ 64 = (decimal n).length := by
    omega
  have hdrop := drop_fieldBlock pre post t n
  rw [filterKey, find_append hfirst t]
  simp only [findFirstOf_colon_fieldBlock, findFirstOf_crlf_fieldBlock, Option.getD_some,
    substr_fieldBlock, if_true]
  rw [hoffset, hcount, substr]
  refine congrArg₂ StringView.mk hdrop ?_
  have hlen := congrArg List.length hdrop
  rw [List.length_drop] at hlen
  rw [hlen, List.length_append]
  omega

/-- The number `recv` finds is that of the field. -/
theorem contentLength_field {pre post : Bytes} {n : ℕ}
    (hfirst : find contentLengthKey (fieldBlock pre n post) = some pre.length)
    (hsize : (fieldBlock pre n post).length ≤ maxSize) (hn : n < 2 ^ 63) (t : Bytes) :
    contentLength (fieldBlock pre n post ++ t) = some (n : ℤ) := by
  have hlen : (fieldBlock pre n post).length =
      pre.length + (14 + ((decimal n).length + (post.length + 2) + 2)) := by
    simp only [fieldBlock, List.length_append, List.length_cons]
    rfl
  have hmax : maxSize = 2 ^ 63 - 1 := rfl
  have hpos : 0 < (decimal n).length := List.length_pos_of_ne_nil (decimal_ne_nil n)
  rw [contentLength, filterKey_field hfirst (by omega) (by omega)]
  simp only [if_neg (Nat.ne_of_gt hpos)]
  exact atoll_decimal hn _

/-! ### Completeness -/

/-- **When the body is complete.** For every header block, body and over-read of `k` bytes,
and whatever follows in the stream and in which segments: where `recv` returns without error,
the buffer holds the header block and the whole body if and only if the whole body had been
read already, or the number `recv` finds in the header is one that it fails on (zero, or so
small that the difference wraps), or is as large as header block and body together. For a
message whose first mention of `Content-Length` is the field with the size of the body, that
leaves the first case only. -/
theorem complete_recv_iff (block body following : Bytes) (stream : List Bytes) (k : ℕ)
    (hbody : 1 ≤ body.length) (hk : k ≤ body.length)
    (hsize : block.length + body.length ≤ maxSize)
    (hstream : stream.flatten = body.drop k ++ following) :
    (Complete block body (httpRecv (block ++ body.take k) stream) ↔
      ∃ v, contentLength (block ++ body.take k) = some v ∧
        (k = body.length ∨ v = 0 ∨ (block.length + body.length : ℤ) ≤ v ∨
          v < (block.length + k : ℤ) - 2 ^ 63)) ∧
    (∀ pre post, block = fieldBlock pre body.length post →
      find contentLengthKey block = some pre.length →
      (Complete block body (httpRecv (block ++ body.take k) stream) ↔ k = body.length)) := by
  constructor
  · cases hfound : contentLength (block ++ body.take k) with
    | none =>
        rw [httpRecv, hfound]
        simp [Complete]
    | some v =>
        simp only [Option.some.injEq, exists_eq_left']
        exact complete_httpRecv_iff hk hsize hstream hfound
  · rintro pre post rfl hfirst
    have hmax : maxSize = 2 ^ 63 - 1 := rfl
    have hfound := contentLength_field hfirst (by omega) (by omega) (body.take k)
    rw [complete_httpRecv_iff hk hsize hstream hfound]
    have hblock : 0 < (fieldBlock pre body.length post).length := by
      simp only [fieldBlock, List.length_append, List.length_cons]
      omega
    omega

/-- The header block `Content-Length: 3` and a blank line. -/
def shortBlock : Bytes := fieldBlock [] 3 [13, 10]

/-- The body is complete when it was read together with the header. -/
theorem complete_recv_whole : Complete shortBlock [97, 98, 99]
    (httpRecv (shortBlock ++ [97, 98, 99]) []) := by
  have h := complete_recv_iff shortBlock [97, 98, 99] [] [] 3 (by decide) (by decide) (by decide)
    rfl
  exact (h.2 [] [13, 10] rfl (by decide)).mpr rfl

/-- **A missing body.** When the header arrives in a segment of its own, `recv` returns without
error and without having read any of the three bytes of the body. -/
theorem not_complete_recv_short :
    httpRecv shortBlock [[97, 98, 99]] = .received shortBlock [[97, 98, 99]] ∧
      ¬ Complete shortBlock [97, 98, 99] (httpRecv shortBlock [[97, 98, 99]]) := by
  have hrecv : httpRecv shortBlock [[97, 98, 99]] = .received shortBlock [[97, 98, 99]] := by
    decide
  refine ⟨hrecv, ?_⟩
  rw [hrecv, Complete]
  decide

end Aquarius
