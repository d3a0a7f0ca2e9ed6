import Aquarius.Library.Decoder

/-!
# Locality of Decoders

A decoder is local when a successful run depends on nothing but the bytes it took: the
value and the end of the run are the same whatever stands behind those bytes. `Local`
states this for a decoder that always is. For a format in which some readers do not check
the end of the buffer, `Tracks d c` sets a second decoder `c` beside `d`, which walks over
the same bytes and reports whether one of those readers ran out of them. Where `c` reports
nothing the run of `d` is local; where it reports, `d` has emptied the buffer, and empties
it again when one byte more is given.

Both relations also follow one distinguished error, `fatal`. A run that meets it meets it
again whatever is appended to the buffer, so a run that succeeds on a longer buffer has not
met it on a shorter one.

## Main results

* `Tracks.local_bind`, `Tracks.bind`, `Tracks.map`, `Tracks.readMany`, `Tracks.foldRead`:
  the relation composes along the decoder monad and its counted loops.
* `Tracks.local_iff`: a run is local exactly when nothing is reported.
* `Tracks.rejects_iff`: a strict prefix of an accepted block is rejected, by an error that
  is not the fatal one, exactly when nothing is reported on it.
-/

namespace Decoding

variable {ε α β σ : Type}

/-! ### Runs of a sequence -/

/-- A sequence succeeds when its parts do, one after the other. -/
theorem run_bind_eq_ok {d : Decoder ε α} {f : α → Decoder ε β} {b r : Bytes} {w : β} :
    (d >>= f).run b = .ok (w, r) ↔
      ∃ v m, d.run b = .ok (v, m) ∧ (f v).run m = .ok (w, r) := by
  rw [StateT.run_bind]
  cases h : d.run b with
  | error e => exact ⟨fun h => (nomatch h), fun ⟨_, _, h, _⟩ => (nomatch h)⟩
  | ok vm =>
      constructor
      · intro h
        exact ⟨vm.1, vm.2, rfl, h⟩
      · rintro ⟨v, m, h, hf⟩
        cases h
        exact hf

/-- A sequence fails in its first part, or in the second after the first. -/
theorem run_bind_eq_error {d : Decoder ε α} {f : α → Decoder ε β} {b : Bytes} {e : ε} :
    (d >>= f).run b = .error e ↔
      d.run b = .error e ∨ ∃ v m, d.run b = .ok (v, m) ∧ (f v).run m = .error e := by
  rw [StateT.run_bind]
  cases h : d.run b with
  | error e' =>
      constructor
      · intro h
        cases h
        exact .inl rfl
      · rintro (h | ⟨v, m, h, -⟩)
        · cases h
          rfl
        · cases h
  | ok vm =>
      constructor
      · intro h
        exact .inr ⟨vm.1, vm.2, rfl, h⟩
      · rintro (h | ⟨v, m, h, hf⟩)
        · cases h
        · cases h
          exact hf

/-- Post-processing the value of a decoder, as a sequence. -/
theorem map_eq_bind_pure (f : α → β) (d : Decoder ε α) :
    f <$> d = d >>= fun v => Pure.pure (f v) :=
  (bind_pure_comp f d).symm

/-! ### Local decoders -/

/-- Every successful run of `d` depends only on the bytes it took, and the error `fatal` is
met on every extension of a buffer it is met on, and not on the empty one. -/
structure Local (fatal : ε) (d : Decoder ε α) : Prop where
  reads : ∀ {b r : Bytes} {v : α}, d.run b = .ok (v, r) → ∃ p, b = p ++ r ∧ Reads d p v
  fatal_append : ∀ {b : Bytes}, d.run b = .error fatal → ∀ s, d.run (b ++ s) = .error fatal
  nil : d.run [] ≠ .error fatal

/-- Returning a value is local. -/
theorem Local.pure (fatal : ε) (v : α) : Local fatal (Pure.pure v : Decoder ε α) where
  reads h := by
    cases h
    exact ⟨[], rfl, Reads.pure v⟩
  fatal_append h := nomatch h
  nil h := nomatch h

/-- Failing with an error that is not the fatal one is local. -/
theorem Local.throw {fatal e : ε} (he : e ≠ fatal) : Local fatal (throw e : Decoder ε α) where
  reads h := nomatch h
  fatal_append h := by
    cases h
    exact absurd rfl he
  nil h := by
    cases h
    exact absurd rfl he

/-- Two local decoders in sequence. -/
theorem Local.bind {fatal : ε} {d : Decoder ε α} {f : α → Decoder ε β} (hd : Local fatal d)
    (hf : ∀ v, Local fatal (f v)) : Local fatal (d >>= f) where
  reads h := by
    obtain ⟨v, m, hv, hw⟩ := run_bind_eq_ok.mp h
    obtain ⟨p, rfl, hp⟩ := hd.reads hv
    obtain ⟨q, rfl, hq⟩ := (hf v).reads hw
    exact ⟨p ++ q, (List.append_assoc p q _).symm, hp.bind hq⟩
  fatal_append h s := by
    rcases run_bind_eq_error.mp h with h | ⟨v, m, hv, hw⟩
    · exact run_bind_eq_error.mpr (.inl (hd.fatal_append h s))
    · obtain ⟨p, rfl, hp⟩ := hd.reads hv
      rw [List.append_assoc]
      exact run_bind_eq_error.mpr (.inr ⟨v, m ++ s, hp (m ++ s), (hf v).fatal_append hw s⟩)
  nil h := by
    rcases run_bind_eq_error.mp h with h | ⟨v, m, hv, hw⟩
    · exact hd.nil h
    · obtain ⟨p, hb, -⟩ := hd.reads hv
      obtain ⟨-, rfl⟩ := List.append_eq_nil_iff.mp hb.symm
      exact (hf v).nil hw

/-- Post-processing keeps a decoder local. -/
theorem Local.map {fatal : ε} {d : Decoder ε α} (hd : Local fatal d) (f : α → β) :
    Local fatal (f <$> d) := by
  rw [map_eq_bind_pure]
  exact hd.bind fun v => Local.pure fatal (f v)

/-- A block whose length is checked is local. -/
theorem Local.readBytes {fatal e : ε} (he : e ≠ fatal) (n : ℕ) :
    Local fatal (readBytes e n) := by
  have hnever : ∀ b : Bytes, (Decoding.readBytes e n).run b ≠ .error fatal := by
    intro b h
    simp only [StateT.run, Decoding.readBytes] at h
    split_ifs at h
    cases h
    exact absurd rfl he
  constructor
  · intro b r v h
    simp only [StateT.run, Decoding.readBytes] at h
    split_ifs at h with hlen
    cases h
    have htake : (b.take n).length = n := by
      rw [List.length_take]
      omega
    have hread := Reads.readBytes e (b.take n)
    rw [htake] at hread
    exact ⟨b.take n, (List.take_append_drop n b).symm, hread⟩
  · intro b h
    exact absurd h (hnever b)
  · exact hnever []

/-! ### Decoders that may run out of bytes -/

/-- `c` walks over the bytes of `d` and reports whether a reader in it ran out of them. -/
structure Tracks (fatal : ε) (d : Decoder ε α) (c : Decoder ε Bool) : Prop where
  error : ∀ {b : Bytes} {e : ε}, d.run b = .error e → c.run b = .error e
  ok : ∀ {b r : Bytes} {v : α}, d.run b = .ok (v, r) →
    (∃ p, b = p ++ r ∧ Reads d p v ∧ Reads c p false) ∨
    (r = [] ∧ c.run b = .ok (true, []) ∧
      ∀ a v' r', d.run (b ++ [a]) = .ok (v', r') → r' = [])
  fatal_append : ∀ {b : Bytes}, d.run b = .error fatal → ∀ s, d.run (b ++ s) = .error fatal
  nil : d.run [] ≠ .error fatal

/-- On the empty buffer a successful run leaves the empty buffer. -/
theorem Tracks.rest_nil {fatal : ε} {d : Decoder ε α} {c : Decoder ε Bool}
    (h : Tracks fatal d c) {v : α} {r : Bytes} (hv : d.run [] = .ok (v, r)) : r = [] := by
  rcases h.ok hv with ⟨p, hb, -⟩ | ⟨hr, -⟩
  · exact (List.append_eq_nil_iff.mp hb.symm).2
  · exact hr

/-- Where a run succeeds, the walk reports something and ends at the same place. -/
theorem Tracks.exists_report {fatal : ε} {d : Decoder ε α} {c : Decoder ε Bool}
    (h : Tracks fatal d c) {b r : Bytes} {v : α} (hv : d.run b = .ok (v, r)) :
    ∃ cut, c.run b = .ok (cut, r) := by
  rcases h.ok hv with ⟨p, rfl, -, hc⟩ | ⟨rfl, hc, -⟩
  · exact ⟨false, hc r⟩
  · exact ⟨true, hc⟩

/-- A local decoder never runs out of bytes unnoticed. -/
theorem Local.tracks {fatal : ε} {d : Decoder ε α} (hd : Local fatal d) :
    Tracks fatal d ((fun _ => false) <$> d) where
  error h := by
    rw [map_eq_bind_pure]
    exact run_bind_eq_error.mpr (.inl h)
  ok h := by
    obtain ⟨p, rfl, hp⟩ := hd.reads h
    exact .inl ⟨p, rfl, hp, hp.map _⟩
  fatal_append := hd.fatal_append
  nil := hd.nil

/-- A local decoder whose value decides how to go on. -/
theorem Tracks.local_bind {fatal : ε} {d : Decoder ε α} {f : α → Decoder ε β}
    {c : α → Decoder ε Bool} (hd : Local fatal d) (hf : ∀ v, Tracks fatal (f v) (c v)) :
    Tracks fatal (d >>= f) (d >>= c) where
  error h := by
    rcases run_bind_eq_error.mp h with h | ⟨v, m, hv, hw⟩
    · exact run_bind_eq_error.mpr (.inl h)
    · exact run_bind_eq_error.mpr (.inr ⟨v, m, hv, (hf v).error hw⟩)
  ok h := by
    obtain ⟨v, m, hv, hw⟩ := run_bind_eq_ok.mp h
    obtain ⟨p, rfl, hp⟩ := hd.reads hv
    rcases (hf v).ok hw with ⟨q, rfl, hq, hc⟩ | ⟨rfl, hc, hmore⟩
    · exact .inl ⟨p ++ q, (List.append_assoc p q _).symm, hp.bind hq, hp.bind hc⟩
    · refine .inr ⟨rfl, run_bind_eq_ok.mpr ⟨v, m, hv, hc⟩, ?_⟩
      intro a v' r' h'
      rw [List.append_assoc, StateT.run_bind, hp (m ++ [a])] at h'
      exact hmore a v' r' h'
  fatal_append h s := by
    rcases run_bind_eq_error.mp h with h | ⟨v, m, hv, hw⟩
    · exact run_bind_eq_error.mpr (.inl (hd.fatal_append h s))
    · obtain ⟨p, rfl, hp⟩ := hd.reads hv
      rw [List.append_assoc]
      exact run_bind_eq_error.mpr (.inr ⟨v, m ++ s, hp (m ++ s), (hf v).fatal_append hw s⟩)
  nil h := by
    rcases run_bind_eq_error.mp h with h | ⟨v, m, hv, hw⟩
    · exact hd.nil h
    · obtain ⟨p, hb, -⟩ := hd.reads hv
      obtain ⟨-, rfl⟩ := List.append_eq_nil_iff.mp hb.symm
      exact (hf v).nil hw

/-- Walk over two parts in order. -/
def orElseAfter (c c' : Decoder ε Bool) : Decoder ε Bool := do
  let cut ← c
  let cut' ← c'
  Pure.pure (cut || cut')

/-- **Sequencing.** Two tracked decoders, the walk over the second not depending on the
value of the first. When the first runs out, the second starts on the empty buffer. -/
theorem Tracks.bind {fatal : ε} {d : Decoder ε α} {f : α → Decoder ε β}
    {c c' : Decoder ε Bool} (hd : Tracks fatal d c) (hf : ∀ v, Tracks fatal (f v) c') :
    Tracks fatal (d >>= f) (orElseAfter c c') where
  error h := by
    rcases run_bind_eq_error.mp h with h | ⟨v, m, hv, hw⟩
    · exact run_bind_eq_error.mpr (.inl (hd.error h))
    · obtain ⟨cut, hcut⟩ := hd.exists_report hv
      refine run_bind_eq_error.mpr (.inr ⟨cut, m, hcut, ?_⟩)
      exact run_bind_eq_error.mpr (.inl ((hf v).error hw))
  ok h := by
    obtain ⟨v, m, hv, hw⟩ := run_bind_eq_ok.mp h
    rcases hd.ok hv with ⟨p, rfl, hp, hc⟩ | ⟨rfl, hc, hmore⟩
    · rcases (hf v).ok hw with ⟨q, rfl, hq, hc'⟩ | ⟨rfl, hc', hmore'⟩
      · refine .inl ⟨p ++ q, (List.append_assoc p q _).symm, hp.bind hq, ?_⟩
        exact hc.bind (hc'.bind_pure (false || ·))
      · refine .inr ⟨rfl, run_bind_eq_ok.mpr ⟨false, m, hc m, ?_⟩, ?_⟩
        · exact run_bind_eq_ok.mpr ⟨true, [], hc', rfl⟩
        · intro a v' r' h'
          rw [List.append_assoc, StateT.run_bind, hp (m ++ [a])] at h'
          exact hmore' a v' r' h'
    · obtain rfl := (hf v).rest_nil hw
      obtain ⟨cut, hcut⟩ := (hf v).exists_report hw
      refine .inr ⟨rfl, run_bind_eq_ok.mpr ⟨true, [], hc, ?_⟩, ?_⟩
      · exact run_bind_eq_ok.mpr ⟨cut, [], hcut, rfl⟩
      · intro a v' r' h'
        obtain ⟨w, m', hw', hrest⟩ := run_bind_eq_ok.mp h'
        obtain rfl := hmore a w m' hw'
        exact (hf w).rest_nil hrest
  fatal_append h s := by
    rcases run_bind_eq_error.mp h with h | ⟨v, m, hv, hw⟩
    · exact run_bind_eq_error.mpr (.inl (hd.fatal_append h s))
    · rcases hd.ok hv with ⟨p, rfl, hp, -⟩ | ⟨rfl, -, -⟩
      · rw [List.append_assoc]
        exact run_bind_eq_error.mpr (.inr ⟨v, m ++ s, hp (m ++ s), (hf v).fatal_append hw s⟩)
      · exact absurd hw (hf v).nil
  nil h := by
    rcases run_bind_eq_error.mp h with h | ⟨v, m, hv, hw⟩
    · exact hd.nil h
    · obtain rfl := hd.rest_nil hv
      exact (hf v).nil hw

/-- Post-processing a tracked decoder. -/
theorem Tracks.map {fatal : ε} {d : Decoder ε α} {c : Decoder ε Bool} (hd : Tracks fatal d c)
    (f : α → β) : Tracks fatal (f <$> d) c where
  error h := by
    rw [map_eq_bind_pure] at h
    rcases run_bind_eq_error.mp h with h | ⟨v, m, hv, hw⟩
    · exact hd.error h
    · cases hw
  ok h := by
    rw [map_eq_bind_pure] at h ⊢
    obtain ⟨v, m, hv, hw⟩ := run_bind_eq_ok.mp h
    cases hw
    rcases hd.ok hv with ⟨p, rfl, hp, hc⟩ | ⟨rfl, hc, hmore⟩
    · exact .inl ⟨p, rfl, hp.bind_pure f, hc⟩
    · refine .inr ⟨rfl, hc, ?_⟩
      intro a v' r' h'
      obtain ⟨w, m', hw', hrest⟩ := run_bind_eq_ok.mp h'
      cases hrest
      exact hmore a w _ hw'
  fatal_append h s := by
    rw [map_eq_bind_pure] at h ⊢
    rcases run_bind_eq_error.mp h with h | ⟨v, m, hv, hw⟩
    · exact run_bind_eq_error.mpr (.inl (hd.fatal_append h s))
    · cases hw
  nil h := by
    rw [map_eq_bind_pure] at h
    rcases run_bind_eq_error.mp h with h | ⟨v, m, hv, hw⟩
    · exact hd.nil h
    · cases hw

/-! ### Counted loops -/

/-- Walk over `n` equal parts. -/
def anyOf (c : Decoder ε Bool) : ℕ → Decoder ε Bool
  | 0 => Pure.pure false
  | n + 1 => orElseAfter c (anyOf c n)

/-- A value returned, with nothing reported. -/
private theorem tracks_pure (fatal : ε) (v : α) :
    Tracks fatal (Pure.pure v : Decoder ε α) (Pure.pure false) :=
  (Local.pure fatal v).tracks

/-- **Counted sequences** of a tracked decoder. -/
theorem Tracks.readMany {fatal : ε} {d : Decoder ε α} {c : Decoder ε Bool}
    (hd : Tracks fatal d c) (n : ℕ) : Tracks fatal (readMany d n) (anyOf c n) := by
  induction n with
  | zero => exact tracks_pure fatal []
  | succ n ih =>
      refine hd.bind fun v => ?_
      have htail := ih.map (List.cons v)
      rwa [map_eq_bind_pure] at htail

/-- **Counted loops** of a tracked step. -/
theorem Tracks.foldRead {fatal : ε} {step : σ → Decoder ε σ} {c : Decoder ε Bool}
    (hstep : ∀ acc, Tracks fatal (step acc) c) (n : ℕ) (acc : σ) :
    Tracks fatal (foldRead step n acc) (anyOf c n) := by
  induction n generalizing acc with
  | zero => exact tracks_pure fatal acc
  | succ n ih => exact (hstep acc).bind fun acc' => ih acc'

/-! ### What the report decides -/

/-- The walk over `b` ends and reports that a reader ran out of bytes. -/
def reports (c : Decoder ε Bool) (b : Bytes) : Bool :=
  match c.run b with
  | .ok (cut, _) => cut
  | .error _ => false

/-- **Locality of one run.** What a run returned depends only on the bytes it took exactly
when nothing is reported. -/
theorem Tracks.local_iff {fatal : ε} {d : Decoder ε α} {c : Decoder ε Bool}
    (h : Tracks fatal d c) (b : Bytes) :
    (∀ v r, d.run b = .ok (v, r) → ∃ p, b = p ++ r ∧ ∀ s, d.run (p ++ s) = .ok (v, s)) ↔
      reports c b = false := by
  cases hb : d.run b with
  | error e =>
      have hc : reports c b = false := by
        rw [reports, h.error hb]
      exact ⟨fun _ => hc, fun _ v r hv => (nomatch hv)⟩
  | ok vr =>
      obtain ⟨v, r⟩ := vr
      rcases h.ok hb with ⟨p, rfl, hp, hc⟩ | ⟨rfl, hc, hmore⟩
      · have hrep : reports c (p ++ r) = false := by
          rw [reports, hc r]
        refine ⟨fun _ => hrep, fun _ v' r' hv => ?_⟩
        cases hv
        exact ⟨p, rfl, hp⟩
      · have hrep : reports c b = true := by
          rw [reports, hc]
        constructor
        · intro hlocal
          obtain ⟨p, hbp, hp⟩ := hlocal v [] rfl
          rw [List.append_nil] at hbp
          subst hbp
          exact absurd (hmore 0 v [0] (hp [0])) (List.cons_ne_nil 0 [])
        · intro hfalse
          exact absurd (hrep.symm.trans hfalse) Bool.noConfusion

/-- **Strict prefixes.** A buffer that falls short of an accepted block is rejected by an
error other than the fatal one exactly when nothing is reported on it. -/
theorem Tracks.rejects_iff {fatal : ε} {d : Decoder ε α} {c : Decoder ε Bool}
    (h : Tracks fatal d c) {block q : Bytes} {w : α} (hblock : Reads d block w)
    (hq : q <+: block) (hne : q ≠ block) :
    (∃ e, e ≠ fatal ∧ d.run q = .error e) ↔ reports c q = false := by
  obtain ⟨s, rfl⟩ := hq
  have hfull : d.run (q ++ s) = .ok (w, []) := by
    have hrun := hblock []
    rwa [List.append_nil] at hrun
  cases hd : d.run q with
  | error e =>
      have hrep : reports c q = false := by
        rw [reports, h.error hd]
      refine ⟨fun _ => hrep, fun _ => ⟨e, ?_, rfl⟩⟩
      rintro rfl
      rw [h.fatal_append hd s] at hfull
      cases hfull
  | ok vr =>
      obtain ⟨v, r⟩ := vr
      refine ⟨fun ⟨e, _, he⟩ => (nomatch he), fun hrep => ?_⟩
      obtain ⟨p, hqp, hp⟩ := (h.local_iff q).mpr hrep v r hd
      have hrun := hp (r ++ s)
      rw [← List.append_assoc, ← hqp, hfull] at hrun
      have hs : r ++ s = [] := by
        injection hrun with hpair
        exact (congrArg Prod.snd hpair).symm
      rw [(List.append_eq_nil_iff.mp hs).2, List.append_nil] at hne
      exact absurd rfl hne

/-! ### Blocks that are framed by some value -/

/-- A counted sequence is framed when every element is, whatever the elements decode to. -/
theorem Reads.exists_readMany {d : Decoder ε α} (enc : β → Bytes) (xs : List β)
    (h : ∀ x ∈ xs, ∃ v, Reads d (enc x) v) :
    ∃ vs, Reads (Decoding.readMany d xs.length) (xs.flatMap enc) vs := by
  induction xs with
  | nil => exact ⟨[], Reads.pure []⟩
  | cons x xs ih =>
      obtain ⟨v, hv⟩ := h x (by simp)
      obtain ⟨vs, hvs⟩ := ih fun y hy => h y (by simp [hy])
      rw [List.flatMap_cons]
      exact ⟨v :: vs, hv.bind (hvs.bind_pure (List.cons v))⟩

/-- A counted loop is framed when every round is. -/
theorem Reads.exists_foldRead (step : σ → Decoder ε σ) (enc : β → Bytes) (xs : List β)
    (acc : σ) (h : ∀ a, ∀ x ∈ xs, ∃ a', Reads (step a) (enc x) a') :
    ∃ out, Reads (Decoding.foldRead step xs.length acc) (xs.flatMap enc) out := by
  induction xs generalizing acc with
  | nil => exact ⟨acc, Reads.pure acc⟩
  | cons x xs ih =>
      obtain ⟨acc', hx⟩ := h acc x (by simp)
      obtain ⟨out, hxs⟩ := ih acc' fun a y hy => h a y (by simp [hy])
      rw [List.flatMap_cons]
      exact ⟨out, hx.bind hxs⟩

end Decoding
