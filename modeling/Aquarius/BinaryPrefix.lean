import Aquarius.Library.Locality
import Aquarius.Binary

/-!
# What a Binary Decoder Depends on

Every reader of `binary_parse` but one checks the end of the buffer: the integers byte by
byte, `pod_t` before it copies, `fixed_t` after. The reader of `string_t` does not. It asks
`sgetn` for as many characters as the size announces and returns what it got, with the rest
of the string zero-filled.

`cutsString` walks over a buffer as `from_datas` does, at every type of the format, and
reports whether a string on the way announced more characters than were left. Runs on which
it reports nothing depend only on the bytes they take; a run on which it does returns
characters that are in no buffer.

## Main results

* `tracks_fromDatas`: by induction over the type, the walk follows the decoder.
* `fromDatas_local_iff`: **at every type and buffer**, the run is local exactly when no
  string is cut, and a strict prefix of an encoding is rejected exactly when no string is
  cut in it.
-/

open Decoding

namespace Aquarius

/-! ### Walking over an encoding -/

/-- The walk over a `string_t`: fewer characters are left than its size announces. -/
def cutsOneString : Decoder Fault Bool := do
  let size ← fromDatasSize
  resize size
  let value ← sgetn size
  pure (decide (value.length < size))

mutual

/-- Walk over an object of type `t` and report whether a string in it is cut. -/
def cutsString (order : ByteOrder) (less : KeyLess) : Ty → Decoder Fault Bool
  | .string => cutsOneString
  | .vector elem => do
      let size ← fromDatasSize
      resize size
      anyOf (cutsString order less elem) size
  | .map key value => do
      let size ← fromDatasSize
      anyOf (orElseAfter (cutsString order less key) (cutsString order less value)) size
  | .struct _ fields => cutsStringIn order less fields
  | t => (fun _ => false) <$> fromDatas order less t

/-- Walk over the members of an aggregate. -/
def cutsStringIn (order : ByteOrder) (less : KeyLess) : List Ty → Decoder Fault Bool
  | [] => pure false
  | t :: ts => orElseAfter (cutsString order less t) (cutsStringIn order less ts)

end

/-! ### The readers that check -/

/-- The continuation loop fails for good when it shifts too far, and is local otherwise.
The accumulator does not decide how many bytes it takes. -/
theorem fromDatasContinuation_cases (w : ℕ) (b : Bytes) :
    ∀ (bit : ℕ) (value : BitVec w),
      (fromDatasContinuation w bit value b = .error .outOfRange) ∨
      (b ≠ [] ∧ ∀ s, fromDatasContinuation w bit value (b ++ s) = .error .undefined) ∨
      ∃ p r v, b = p ++ r ∧ ∀ s, fromDatasContinuation w bit value (p ++ s) = .ok (v, s) := by
  induction b with
  | nil =>
      intro bit value
      exact .inl rfl
  | cons temp buff ih =>
      intro bit value
      by_cases hbit : w ≤ bit
      · refine .inr (.inl ⟨List.cons_ne_nil _ _, fun s => ?_⟩)
        rw [List.cons_append, fromDatasContinuation, if_pos hbit]
      by_cases hlast : temp &&& 0x80 = 0
      · refine .inr (.inr ⟨[temp], buff, value + BitVec.ofNat w temp.toNat <<< bit, rfl,
          fun s => ?_⟩)
        rw [List.singleton_append, fromDatasContinuation, if_neg hbit, if_pos hlast]
      have hstep : ∀ s, fromDatasContinuation w bit value (temp :: s) =
          fromDatasContinuation w (bit + 7)
            (value + BitVec.ofNat w (temp &&& 0x7f).toNat <<< bit) s := by
        intro s
        rw [fromDatasContinuation, if_neg hbit, if_neg hlast]
      rcases ih (bit + 7) (value + BitVec.ofNat w (temp &&& 0x7f).toNat <<< bit) with
        hout | ⟨-, hundef⟩ | ⟨p, r, v, rfl, hp⟩
      · refine .inl ?_
        rw [hstep, hout]
      · refine .inr (.inl ⟨List.cons_ne_nil _ _, fun s => ?_⟩)
        rw [List.cons_append, hstep, hundef s]
      · refine .inr (.inr ⟨temp :: p, r, v, rfl, fun s => ?_⟩)
        rw [List.cons_append, hstep, hp s]

/-- The reader of an `integer_t` runs out, shifts too far, or takes a block of its own. -/
theorem fromDatasInteger_cases (w : ℕ) (b : Bytes) :
    ((fromDatasInteger w).run b = .error .outOfRange) ∨
    (b ≠ [] ∧ ∀ s, (fromDatasInteger w).run (b ++ s) = .error .undefined) ∨
    ∃ p r v, b = p ++ r ∧ Reads (fromDatasInteger w) p v := by
  cases b with
  | nil => exact .inl rfl
  | cons temp buff =>
      by_cases hbig : 0x80 ≤ (BitVec.ofNat w temp.toNat).toNat
      · have hstep : ∀ s, (fromDatasInteger w).run (temp :: s) =
            fromDatasContinuation w 7 (BitVec.ofNat w temp.toNat - 0x80#w) s := by
          intro s
          simp only [StateT.run, fromDatasInteger, if_pos hbig]
        rcases fromDatasContinuation_cases w buff 7 (BitVec.ofNat w temp.toNat - 0x80#w) with
          hout | ⟨-, hundef⟩ | ⟨p, r, v, rfl, hp⟩
        · refine .inl ?_
          rw [hstep, hout]
        · refine .inr (.inl ⟨List.cons_ne_nil _ _, fun s => ?_⟩)
          rw [List.cons_append, hstep, hundef s]
        · refine .inr (.inr ⟨temp :: p, r, v, rfl, fun s => ?_⟩)
          rw [List.cons_append, hstep, hp s]
      · refine .inr (.inr ⟨[temp], buff, BitVec.ofNat w temp.toNat, rfl, fun s => ?_⟩)
        simp only [StateT.run, List.singleton_append, fromDatasInteger, if_neg hbig]

/-- The reader of an `integer_t` is local. -/
theorem local_fromDatasInteger (w : ℕ) : Local Fault.undefined (fromDatasInteger w) := by
  constructor
  · intro b r v h
    rcases fromDatasInteger_cases w b with hout | ⟨-, hundef⟩ | ⟨p, r', v', rfl, hp⟩
    · rw [hout] at h
      cases h
    · have hrun := hundef []
      rw [List.append_nil, h] at hrun
      cases hrun
    · rw [hp r'] at h
      cases h
      exact ⟨p, rfl, hp⟩
  · intro b h
    rcases fromDatasInteger_cases w b with hout | ⟨-, hundef⟩ | ⟨p, r, v, rfl, hp⟩
    · rw [hout] at h
      cases h
    · exact hundef
    · rw [hp r] at h
      cases h
  · intro h
    cases h

/-- The reader of a size is local. -/
theorem local_fromDatasSize : Local Fault.undefined fromDatasSize :=
  (local_fromDatasInteger 64).map BitVec.toNat

/-- Growing a container is local: whether it throws depends on the size alone. -/
theorem local_resize (size : ℕ) : Local Fault.undefined (resize size) := by
  rw [resize]
  split_ifs with hsize
  · exact Local.throw Fault.noConfusion
  · exact Local.pure _ ()

/-- The reader of a `pod_t` is local: it checks before it copies. -/
theorem local_fromDatasPod (order : ByteOrder) (n w : ℕ) :
    Local Fault.undefined (fromDatasPod order n w) :=
  (Local.readBytes Fault.noConfusion n).map _

/-- Checking afterwards, as `fixed_t` does, comes to the same. -/
theorem fromDatasFixed_eq_fromDatasPod (order : ByteOrder) (n w : ℕ) :
    fromDatasFixed order n w = fromDatasPod order n w := by
  funext b
  have hlen : (b.take n).length ≠ n ↔ b.length < n := by
    rw [List.length_take]
    omega
  by_cases h : b.length < n
  · have hfixed : (fromDatasFixed order n w).run b = .error .outOfRange := by
      refine run_bind_eq_error.mpr (.inr ⟨b.take n, b.drop n, rfl, ?_⟩)
      rw [if_pos (hlen.mpr h)]
      rfl
    have hpod : (fromDatasPod order n w).run b = .error .outOfRange := by
      rw [fromDatasPod, map_eq_bind_pure]
      exact run_bind_eq_error.mpr (.inl (if_pos h))
    exact hfixed.trans hpod.symm
  · have hfixed : (fromDatasFixed order n w).run b =
        .ok (BitVec.ofNat w (order.value (b.take n)), b.drop n) := by
      refine run_bind_eq_ok.mpr ⟨b.take n, b.drop n, rfl, ?_⟩
      rw [if_neg (mt hlen.mp h)]
      rfl
    have hpod : (fromDatasPod order n w).run b =
        .ok (BitVec.ofNat w (order.value (b.take n)), b.drop n) := by
      rw [fromDatasPod, map_eq_bind_pure]
      exact run_bind_eq_ok.mpr ⟨b.take n, b.drop n, if_neg h, rfl⟩
    exact hfixed.trans hpod.symm

/-- The reader of a `fixed_t` is local. -/
theorem local_fromDatasFixed (order : ByteOrder) (n w : ℕ) :
    Local Fault.undefined (fromDatasFixed order n w) := by
  rw [fromDatasFixed_eq_fromDatasPod]
  exact local_fromDatasPod order n w

/-- What `from_datas<bool>` makes of a byte, whatever follows it. -/
theorem run_fromDatasBool_cons (order : ByteOrder) (temp : UInt8) :
    (∃ v, Reads (fromDatasBool order) [temp] v) ∨
      ∀ s, (fromDatasBool order).run (temp :: s) = .error .undefined := by
  have hpod : Reads (fromDatasPod order 1 8) [temp] (BitVec.ofNat 8 (order.value [temp])) :=
    (Reads.readBytes Fault.outOfRange [temp]).map fun bs => BitVec.ofNat 8 (order.value bs)
  by_cases h0 : BitVec.ofNat 8 (order.value [temp]) = 0
  · refine .inl ⟨false, hpod.bind (?_ : Reads _ [] false)⟩
    rw [if_pos h0]
    exact Reads.pure false
  by_cases h1 : BitVec.ofNat 8 (order.value [temp]) = 1
  · refine .inl ⟨true, hpod.bind (?_ : Reads _ [] true)⟩
    rw [if_neg h0, if_pos h1]
    exact Reads.pure true
  · refine .inr fun s => run_bind_eq_error.mpr (.inr ⟨_, s, hpod s, ?_⟩)
    rw [if_neg h0, if_neg h1]
    rfl

/-- The reader of a `bool` is local. -/
theorem local_fromDatasBool (order : ByteOrder) :
    Local Fault.undefined (fromDatasBool order) := by
  constructor
  · intro b r v h
    cases b with
    | nil => cases h
    | cons temp buff =>
        rcases run_fromDatasBool_cons order temp with ⟨v', hv'⟩ | hundef
        · have hrun := hv' buff
          rw [List.singleton_append, h] at hrun
          cases hrun
          exact ⟨[temp], rfl, hv'⟩
        · rw [hundef buff] at h
          cases h
  · intro b h s
    cases b with
    | nil => cases h
    | cons temp buff =>
        rcases run_fromDatasBool_cons order temp with ⟨v', hv'⟩ | hundef
        · have hrun := hv' buff
          rw [List.singleton_append, h] at hrun
          cases hrun
        · exact hundef (buff ++ s)
  · intro h
    cases h

/-! ### The reader that does not -/

/-- Taking what `sgetn` delivers and filling up is tracked by the missing length. -/
theorem tracks_sgetn (size : ℕ) :
    Tracks Fault.undefined
      (sgetn size >>= fun value => pure (value ++ List.replicate (size - value.length) 0))
      (sgetn size >>= fun value => pure (decide (value.length < size))) where
  error h := by
    cases h
  ok {b r v} h := by
    cases h
    by_cases hlen : b.length < size
    · have hdrop : b.drop size = [] := List.drop_eq_nil_of_le hlen.le
      refine .inr ⟨hdrop, ?_, ?_⟩
      · have hcut : (b.take size).length < size := by
          rw [List.length_take]
          omega
        have hrun : (sgetn size >>= fun value => pure (decide (value.length < size))).run b =
            .ok (decide ((b.take size).length < size), b.drop size) := rfl
        rw [hrun, hdrop, decide_eq_true hcut]
      · intro a v' r' h'
        cases h'
        refine List.drop_eq_nil_of_le ?_
        rw [List.length_append, List.length_singleton]
        exact hlen
    · have htake : (b.take size).length = size := by
        rw [List.length_take]
        omega
      have hget : Reads (sgetn size) (b.take size) (b.take size) := by
        intro s
        simp only [StateT.run, sgetn]
        rw [List.take_left' htake, List.drop_left' htake]
      refine .inl ⟨b.take size, (List.take_append_drop size b).symm, hget.bind_pure _, ?_⟩
      have hcut := hget.bind_pure fun value => decide (value.length < size)
      rwa [htake, decide_eq_false (lt_irrefl size)] at hcut
  fatal_append h := by
    cases h
  nil h := by
    cases h

/-- The reader of a `string_t`. -/
theorem tracks_fromDatasString : Tracks Fault.undefined fromDatasString cutsOneString :=
  Tracks.local_bind local_fromDatasSize fun size =>
    Tracks.local_bind (local_resize size) fun _ => tracks_sgetn size

/-! ### The format -/

mutual

/-- **The walk follows the decoder** at every type of the format. -/
theorem tracks_fromDatas (order : ByteOrder) (less : KeyLess) :
    (t : Ty) → Tracks Fault.undefined (fromDatas order less t) (cutsString order less t)
  | .uint32 => (local_fromDatasInteger 32).tracks
  | .uint64 => (local_fromDatasInteger 64).tracks
  | .int16 => ((local_fromDatasInteger 64).map (zigZagDecode 16)).tracks
  | .int32 => ((local_fromDatasInteger 64).map (zigZagDecode 32)).tracks
  | .int64 => ((local_fromDatasInteger 64).map (zigZagDecode 64)).tracks
  | .char => (local_fromDatasPod order 1 8).tracks
  | .bool => (local_fromDatasBool order).tracks
  | .float => (local_fromDatasPod order 4 32).tracks
  | .double => (local_fromDatasPod order 8 64).tracks
  | .fixed32 => (local_fromDatasFixed order 4 32).tracks
  | .fixed64 => (local_fromDatasFixed order 8 64).tracks
  | .string => tracks_fromDatasString
  | .vector elem =>
      Tracks.local_bind local_fromDatasSize fun size =>
        Tracks.local_bind (local_resize size) fun _ =>
          (tracks_fromDatas order less elem).readMany size
  | .map key value => by
      refine Tracks.local_bind local_fromDatasSize fun size => ?_
      refine Tracks.foldRead (fun acc => ?_) size []
      refine (tracks_fromDatas order less key).bind fun first => ?_
      have hvalue := (tracks_fromDatas order less value).map
        fun second => OrderedMap.assign (less key) first second acc
      rwa [map_eq_bind_pure] at hvalue
  | .struct _ fields => tracks_fromDatasFields order less fields

/-- The walk follows the members of an aggregate. -/
theorem tracks_fromDatasFields (order : ByteOrder) (less : KeyLess) :
    (ts : List Ty) →
      Tracks Fault.undefined (fromDatasFields order less ts) (cutsStringIn order less ts)
  | [] => (Local.pure Fault.undefined ()).tracks
  | t :: ts => by
      refine (tracks_fromDatas order less t).bind fun first => ?_
      have hrest := (tracks_fromDatasFields order less ts).map (Prod.mk first)
      rwa [map_eq_bind_pure] at hrest

end

mutual

/-- Every encoding is framed, whatever value an `int32_t` in it comes back as. -/
theorem exists_reads_fromDatas (order : ByteOrder) (less : KeyLess) {P : BitVec 32 → Prop} :
    (t : Ty) → (v : t.Val) → t.Ok P less v →
      ∃ w, Reads (fromDatas order less t) (toDatas order t v) w
  | .uint32, v, _ => ⟨v, reads_fromDatasInteger (by omega) (w := 32) v⟩
  | .uint64, v, _ => ⟨v, reads_fromDatasInteger (by omega) (w := 64) v⟩
  | .int16, v, _ => ⟨_, reads_fromDatasZigZag (w := 16) v⟩
  | .int32, v, _ => ⟨_, reads_fromDatasZigZag (w := 32) v⟩
  | .int64, v, _ => ⟨_, reads_fromDatasZigZag (w := 64) v⟩
  | .char, v, _ => ⟨v, reads_fromDatasPod order 1 rfl (w := 8) v⟩
  | .bool, v, _ => ⟨v, reads_fromDatasBool order v⟩
  | .float, v, _ => ⟨v, reads_fromDatasPod order 4 rfl (w := 32) v⟩
  | .double, v, _ => ⟨v, reads_fromDatasPod order 8 rfl (w := 64) v⟩
  | .fixed32, v, _ => ⟨v, reads_fromDatasFixed order 4 rfl (w := 32) v⟩
  | .fixed64, v, _ => ⟨v, reads_fromDatasFixed order 8 rfl (w := 64) v⟩
  | .string, v, hv => ⟨v, reads_fromDatasString hv.1⟩
  | .vector elem, v, hv => by
      obtain ⟨vs, hvs⟩ := Reads.exists_readMany (toDatas order elem) v fun e he =>
        exists_reads_fromDatas order less elem e (hv.2 e he)
      exact ⟨vs, (reads_fromDatasSize hv.1).bind ((reads_resize hv.1).check hvs)⟩
  | .map key value, v, hv => by
      obtain ⟨out, hout⟩ := Reads.exists_foldRead
        (fun acc => do
          let first ← fromDatas order less key
          let second ← fromDatas order less value
          pure (OrderedMap.assign (less key) first second acc))
        (fun e : key.Val × value.Val => toDatas order key e.1 ++ toDatas order value e.2)
        v [] fun acc e he => by
          obtain ⟨first, hfirst⟩ := exists_reads_fromDatas order less key e.1 (hv.2.2 e he).1
          obtain ⟨second, hsecond⟩ :=
            exists_reads_fromDatas order less value e.2 (hv.2.2 e he).2
          exact ⟨_, hfirst.bind
            (hsecond.bind_pure fun second => OrderedMap.assign (less key) first second acc)⟩
      exact ⟨out, (reads_fromDatasSize hv.2.1).bind hout⟩
  | .struct _ fields, v, hv => exists_reads_fromDatasFields order less fields v hv

/-- The members of an aggregate are framed one after another. -/
theorem exists_reads_fromDatasFields (order : ByteOrder) (less : KeyLess)
    {P : BitVec 32 → Prop} :
    (ts : List Ty) → (v : Ty.Fields ts) → Ty.FieldsOk P less ts v →
      ∃ w, Reads (fromDatasFields order less ts) (toDatasFields order ts v) w
  | [], _, _ => ⟨(), Reads.pure ()⟩
  | t :: ts, v, hv => by
      obtain ⟨first, hfirst⟩ := exists_reads_fromDatas order less t v.1 hv.1
      obtain ⟨rest, hrest⟩ := exists_reads_fromDatasFields order less ts v.2 hv.2
      exact ⟨(first, rest), hfirst.bind (hrest.bind_pure (Prod.mk first))⟩

end

/-! ### Locality and truncation -/

/-- A string met in decoding an object of type `t` from `b` announces more characters than
are left in `b` at that point, and the decoding goes on to its end. -/
def CutsString (order : ByteOrder) (less : KeyLess) (t : Ty) (b : Bytes) : Prop :=
  reports (cutsString order less t) b = true

/-- **What decoding depends on.** At every type and buffer, what `from_datas` returns is
determined by the bytes it took, exactly when no string is cut; and a strict prefix of the
encoding of an object is rejected with an exception, exactly when no string is cut in it. -/
theorem fromDatas_local_iff (order : ByteOrder) (less : KeyLess) (t : Ty) :
    (∀ b : Bytes,
      (∀ v rest, (fromDatas order less t).run b = .ok (v, rest) →
        ∃ p, b = p ++ rest ∧
          ∀ s : Bytes, (fromDatas order less t).run (p ++ s) = .ok (v, s)) ↔
      ¬ CutsString order less t b) ∧
    ∀ (v : Object less t) (q : Bytes), q <+: toDatas order t v.val →
      q ≠ toDatas order t v.val →
      ((∃ e, e ≠ .undefined ∧ (fromDatas order less t).run q = .error e) ↔
        ¬ CutsString order less t q) := by
  have htracks := tracks_fromDatas order less t
  constructor
  · intro b
    rw [CutsString, Bool.not_eq_true]
    exact htracks.local_iff b
  · intro v q hprefix hne
    obtain ⟨w, hw⟩ := exists_reads_fromDatas order less t v.val v.ok
    rw [CutsString, Bool.not_eq_true]
    exact htracks.rejects_iff hw hprefix hne

/-- A string of five characters. -/
def fiveLetters : Object (stdLess fun _ _ _ => false) .string where
  val := ([97, 98, 99, 100, 101] : Bytes)
  ok := ⟨by decide, fun _ _ => trivial⟩

/-- The encoding of the string begins with its size. -/
private theorem toDatas_fiveLetters :
    toDatas .little .string fiveLetters.val = [5, 97, 98, 99, 100, 101] :=
  toDatasString_of_lt (by decide)

/-- A string that is there in full is local; a buffer that ends before the size of a string
is rejected. -/
theorem fromDatas_local_fiveLetters :
    (∀ v rest, (fromDatas .little (stdLess fun _ _ _ => false) .string).run [1, 97, 7] =
        .ok (v, rest) →
      ∃ p, [1, 97, 7] = p ++ rest ∧ ∀ s : Bytes,
        (fromDatas .little (stdLess fun _ _ _ => false) .string).run (p ++ s) = .ok (v, s)) ∧
    ∃ e, e ≠ .undefined ∧
      (fromDatas .little (stdLess fun _ _ _ => false) .string).run [] = .error e := by
  have h := fromDatas_local_iff .little (stdLess fun _ _ _ => false) .string
  constructor
  · refine (h.1 [1, 97, 7]).mpr fun hcut => ?_
    have hnone : reports (cutsString .little (stdLess fun _ _ _ => false) .string) [1, 97, 7] =
        false := rfl
    exact Bool.noConfusion (hnone.symm.trans hcut)
  · refine (h.2 fiveLetters [] (List.nil_prefix) ?_).mpr fun hcut => ?_
    · rw [toDatas_fiveLetters]
      exact (List.cons_ne_nil _ _).symm
    · have hnone : reports (cutsString .little (stdLess fun _ _ _ => false) .string) [] =
          false := rfl
      exact Bool.noConfusion (hnone.symm.trans hcut)

/-- The first two bytes of an encoded string of five characters come back as a string of
five characters, four of them zero: the run is not local, as another byte is taken as well
when it is there, and the strict prefix of an encoding is not rejected. -/
theorem fromDatas_cut_fiveLetters :
    (¬ ∀ v rest, (fromDatas .little (stdLess fun _ _ _ => false) .string).run [5, 97] =
        .ok (v, rest) →
      ∃ p, [5, 97] = p ++ rest ∧ ∀ s : Bytes,
        (fromDatas .little (stdLess fun _ _ _ => false) .string).run (p ++ s) = .ok (v, s)) ∧
    [5, 97] <+: toDatas .little .string fiveLetters.val ∧
    [5, 97] ≠ toDatas .little .string fiveLetters.val ∧
    ¬ ∃ e, e ≠ .undefined ∧
      (fromDatas .little (stdLess fun _ _ _ => false) .string).run [5, 97] = .error e := by
  have hrun : (fromDatas .little (stdLess fun _ _ _ => false) .string).run [5, 97] =
      .ok (([97, 0, 0, 0, 0] : Bytes), []) := rfl
  have hmore : (fromDatas .little (stdLess fun _ _ _ => false) .string).run [5, 97, 98] =
      .ok (([97, 98, 0, 0, 0] : Bytes), []) := rfl
  refine ⟨?_, ?_, ?_, ?_⟩
  · intro hlocal
    obtain ⟨p, hp, hall⟩ := hlocal _ _ hrun
    rw [List.append_nil] at hp
    subst hp
    have h98 := hall [98]
    rw [List.cons_append, List.cons_append, List.nil_append, hmore] at h98
    injection h98 with hpair
    exact absurd (congrArg Prod.snd hpair) (List.cons_ne_nil 98 []).symm
  · rw [toDatas_fiveLetters]
    exact ⟨[98, 99, 100, 101], rfl⟩
  · rw [toDatas_fiveLetters]
    intro h
    cases h
  · rintro ⟨e, -, he⟩
    rw [hrun] at he
    cases he

end Aquarius
