import Aquarius.Library.Decoder
import Mathlib.Data.List.Induction
import Mathlib.Data.List.Nodup
import Mathlib.Data.List.TakeWhile

/-!
# Announcing Topics

`context_reg` (`ip/context_reg.hpp`) keeps the contexts of a process by their topics, those of the
system apart. A process is asked for its topics by a shake request, which `ctx_shake`
(`serviced/ctx_shake.cpp`) answers: it appends the topics of the plain contexts to those in its
response. The response belongs to the handler, the handler to the context (`basic_context.hpp`), and
the context stays in the registry, so the topics of one answer are still there at the next.

The maps are unordered; the order in which one is enumerated may be any, each time another one.

## Main results

* `topics_step`, `contexts_step`: what one event does to the response and to the registry.
* `announces_iff`: **every answer announces the topics** exactly when at most one request comes
  after the first plain registration.
* `not_announces_twice`: the second answer lists a topic twice.
-/

open Decoding

namespace Aquarius

/-- An order in which the topics of a map are enumerated. -/
structure TopicOrder where
  enumerate : List Bytes → List Bytes
  perm : ∀ topics, (enumerate topics).Perm topics

/-- `context_reg`, with the response of the handler that answers shake requests. -/
structure Announcer (Node : Type) where
  contexts : List (Bytes × Node) := []
  sysContexts : List (Bytes × Node) := []
  topics : List Bytes := []

/-- What happens: a context is registered, or a shake request arrives. -/
inductive AnnounceEvent (Node : Type) where
  | putContext (topic : Bytes) (n : Node) (system : Bool)
  | shake (order : TopicOrder)

variable {Node : Type}

/-- `insert({ topic, n })`, which keeps what is there -/
def insertContext (contexts : List (Bytes × Node)) (topic : Bytes) (n : Node) :
    List (Bytes × Node) :=
  if contexts.any (·.1 = topic) then contexts else contexts ++ [(topic, n)]

namespace Announcer

/-- `mpc_put_context` -/
def mpcPutContext (s : Announcer Node) (topic : Bytes) (n : Node) (system : Bool) :
    Announcer Node :=
  if system then { s with sysContexts := insertContext s.sysContexts topic n }
  else { s with contexts := insertContext s.contexts topic n }

/-- `mpc_generate_topics` -/
def mpcGenerateTopics (s : Announcer Node) (order : TopicOrder) (topics : List Bytes) :
    List Bytes :=
  topics ++ order.enumerate (s.contexts.map Prod.fst)

/-- `ctx_shake`: the topics in its response, which is then written. -/
def ctxShake (s : Announcer Node) (order : TopicOrder) : Announcer Node :=
  { s with topics := s.mpcGenerateTopics order s.topics }

/-- One event. -/
def step (s : Announcer Node) : AnnounceEvent Node → Announcer Node
  | .putContext topic n system => s.mpcPutContext topic n system
  | .shake order => s.ctxShake order

end Announcer

/-- A process after the events. -/
def announcerAfter (es : List (AnnounceEvent Node)) : Announcer Node :=
  es.foldl Announcer.step {}

namespace AnnounceEvent

/-- The topic of a plain registration. -/
def plainTopic : AnnounceEvent Node → Option Bytes
  | putContext topic _ false => some topic
  | _ => none

/-- A plain registration. -/
def isPlain (e : AnnounceEvent Node) : Bool := e.plainTopic.isSome

/-- A shake request. -/
def isShake : AnnounceEvent Node → Bool
  | shake _ => true
  | putContext _ _ _ => false

end AnnounceEvent

/-- The topic has been registered as that of a plain context. -/
def RegisteredPlain (es : List (AnnounceEvent Node)) (topic : Bytes) : Prop :=
  ∃ e ∈ es, e.plainTopic = some topic

/-- **Every answer announces the topics**: each of those registered so far as plain contexts once,
and no other. -/
def Announces (es : List (AnnounceEvent Node)) : Prop :=
  ∀ before order after, es = before ++ .shake order :: after →
    ∀ topic, (RegisteredPlain before topic →
        ((announcerAfter before).ctxShake order).topics.count topic = 1) ∧
      (¬ RegisteredPlain before topic →
        ((announcerAfter before).ctxShake order).topics.count topic = 0)

/-- The shake requests after the first plain registration. -/
def lateShakes (es : List (AnnounceEvent Node)) : ℕ :=
  (es.dropWhile fun e => !e.isPlain).countP AnnounceEvent.isShake

/-! ### What an event does -/

/-- The process after one more event. -/
theorem announcerAfter_concat (es : List (AnnounceEvent Node)) (e : AnnounceEvent Node) :
    announcerAfter (es ++ [e]) = (announcerAfter es).step e := by
  rw [announcerAfter, List.foldl_append]
  rfl

/-- The topics of the contexts after an insertion. -/
theorem mem_insertContext (contexts : List (Bytes × Node)) (topic topic' : Bytes) (n : Node) :
    topic' ∈ (insertContext contexts topic n).map Prod.fst ↔
      topic' ∈ contexts.map Prod.fst ∨ topic' = topic := by
  rw [insertContext]
  split
  · rename_i hany
    obtain ⟨c, hc, htopic⟩ := List.any_eq_true.mp hany
    have hmem : topic ∈ contexts.map Prod.fst :=
      List.mem_map.mpr ⟨c, hc, of_decide_eq_true htopic⟩
    constructor
    · exact Or.inl
    · rintro (h | rfl)
      · exact h
      · exact hmem
  · simp

/-- The topics of a map are distinct. -/
theorem nodup_insertContext {contexts : List (Bytes × Node)} (h : (contexts.map Prod.fst).Nodup)
    (topic : Bytes) (n : Node) : ((insertContext contexts topic n).map Prod.fst).Nodup := by
  rw [insertContext]
  split
  · exact h
  · rename_i hany
    have hnew : topic ∉ contexts.map Prod.fst := by
      rintro hmem
      obtain ⟨c, hc, htopic⟩ := List.mem_map.mp hmem
      exact hany (List.any_eq_true.mpr ⟨c, hc, decide_eq_true htopic⟩)
    rw [List.map_append, List.map_singleton, ← List.concat_eq_append]
    exact h.concat hnew

/-- **One event and the registry**: only a plain registration changes the plain contexts. -/
theorem contexts_step (s : Announcer Node) (e : AnnounceEvent Node) :
    (s.step e).contexts = match e with
      | .putContext topic n false => insertContext s.contexts topic n
      | _ => s.contexts := by
  cases e with
  | putContext topic n system => cases system <;> rfl
  | shake order => rfl

/-- **One event and the response**: only a shake request changes it, and only by more topics. -/
theorem topics_step (s : Announcer Node) (e : AnnounceEvent Node) :
    (s.step e).topics = match e with
      | .shake order => s.topics ++ order.enumerate (s.contexts.map Prod.fst)
      | _ => s.topics := by
  cases e with
  | putContext topic n system => cases system <;> rfl
  | shake order => rfl

/-- **The plain contexts** are those registered as such, each once. -/
theorem contexts_announcerAfter (es : List (AnnounceEvent Node)) :
    ((announcerAfter es).contexts.map Prod.fst).Nodup ∧
      ∀ topic, topic ∈ (announcerAfter es).contexts.map Prod.fst ↔ RegisteredPlain es topic := by
  induction es using List.reverseRecOn with
  | nil => exact ⟨List.nodup_nil, fun topic => by simp [announcerAfter, RegisteredPlain]⟩
  | append_singleton es e ih =>
      obtain ⟨hnodup, hmem⟩ := ih
      have hregistered : ∀ topic, RegisteredPlain (es ++ [e]) topic ↔
          RegisteredPlain es topic ∨ e.plainTopic = some topic := by
        simp [RegisteredPlain, or_and_right, exists_or]
      rw [announcerAfter_concat, contexts_step]
      split
      · rename_i topic n
        refine ⟨nodup_insertContext hnodup topic n, fun topic' => ?_⟩
        rw [mem_insertContext, hmem, hregistered]
        simp [AnnounceEvent.plainTopic, eq_comm]
      · rename_i hother
        refine ⟨hnodup, fun topic' => ?_⟩
        have hnone : e.plainTopic = none := by
          cases e with
          | putContext topic n system =>
              cases system with
              | false => exact absurd rfl (hother topic n)
              | true => rfl
          | shake order => rfl
        rw [hmem, hregistered, hnone]
        simp

/-! ### The answers -/

/-- **One answer** announces the topics exactly when the response was empty before: the registry
alone has every topic once. -/
theorem count_ctxShake_iff (es : List (AnnounceEvent Node)) (order : TopicOrder) :
    (∀ topic, (RegisteredPlain es topic →
        ((announcerAfter es).ctxShake order).topics.count topic = 1) ∧
      (¬ RegisteredPlain es topic →
        ((announcerAfter es).ctxShake order).topics.count topic = 0)) ↔
      (announcerAfter es).topics = [] := by
  obtain ⟨hnodup, hmem⟩ := contexts_announcerAfter es
  have hcount : ∀ topic, ((announcerAfter es).ctxShake order).topics.count topic =
      (announcerAfter es).topics.count topic +
        ((announcerAfter es).contexts.map Prod.fst).count topic := by
    intro topic
    rw [Announcer.ctxShake, Announcer.mpcGenerateTopics, List.count_append,
      (order.perm _).count_eq]
  have hpresent : ∀ topic, RegisteredPlain es topic →
      ((announcerAfter es).contexts.map Prod.fst).count topic = 1 := fun topic h =>
    List.count_eq_one_of_mem hnodup ((hmem topic).mpr h)
  have habsent : ∀ topic, ¬ RegisteredPlain es topic →
      ((announcerAfter es).contexts.map Prod.fst).count topic = 0 := fun topic h =>
    List.count_eq_zero.mpr (mt (hmem topic).mp h)
  constructor
  · intro h
    rw [List.eq_nil_iff_forall_not_mem]
    intro topic
    rw [← List.count_eq_zero]
    by_cases hregistered : RegisteredPlain es topic
    · have hone := (h topic).1 hregistered
      rw [hcount, hpresent topic hregistered] at hone
      omega
    · have hzero := (h topic).2 hregistered
      rw [hcount, habsent topic hregistered] at hzero
      omega
  · intro hempty topic
    rw [hcount, hempty, List.count_nil, Nat.zero_add]
    exact ⟨hpresent topic, habsent topic⟩

/-- Without a plain registration all events are skipped. -/
private theorem dropWhile_eq_nil_iff_any (es : List (AnnounceEvent Node)) :
    es.dropWhile (fun e => !e.isPlain) = [] ↔ ¬ es.any AnnounceEvent.isPlain = true := by
  rw [List.dropWhile_eq_nil_iff]
  simp

/-- There are late requests only after a plain registration, and each counts. -/
theorem lateShakes_concat (es : List (AnnounceEvent Node)) (e : AnnounceEvent Node) :
    lateShakes (es ++ [e]) =
      lateShakes es + if es.any AnnounceEvent.isPlain ∧ e.isShake then 1 else 0 := by
  rw [lateShakes, lateShakes, List.dropWhile_append]
  split
  · rename_i hempty
    -- no plain registration so far, and the event is not both
    have hnone := (dropWhile_eq_nil_iff_any es).mp (List.isEmpty_iff.mp hempty)
    rw [List.isEmpty_iff.mp hempty, if_neg fun h => hnone h.1]
    cases e with
    | putContext topic n system =>
        cases system <;> simp [AnnounceEvent.isPlain, AnnounceEvent.plainTopic,
          AnnounceEvent.isShake]
    | shake order => simp [AnnounceEvent.isPlain, AnnounceEvent.plainTopic]
  · rename_i hempty
    have hsome : es.any AnnounceEvent.isPlain = true := by
      by_contra hnone
      exact hempty (List.isEmpty_iff.mpr ((dropWhile_eq_nil_iff_any es).mpr hnone))
    rw [List.countP_append, List.countP_singleton]
    simp only [hsome, true_and]

/-- A plain registration is there exactly when the registry has a plain context. -/
private theorem any_isPlain_iff (es : List (AnnounceEvent Node)) :
    es.any AnnounceEvent.isPlain = true ↔ (announcerAfter es).contexts ≠ [] := by
  obtain ⟨-, hmem⟩ := contexts_announcerAfter es
  have hne : (announcerAfter es).contexts ≠ [] ↔
      ∃ topic, topic ∈ (announcerAfter es).contexts.map Prod.fst := by
    rw [ne_eq, ← List.map_eq_nil_iff, List.eq_nil_iff_forall_not_mem, not_forall_not]
  rw [List.any_eq_true, hne]
  constructor
  · rintro ⟨e, he, hplain⟩
    obtain ⟨topic, htopic⟩ := Option.isSome_iff_exists.mp hplain
    exact ⟨topic, (hmem topic).mpr ⟨e, he, htopic⟩⟩
  · rintro ⟨topic, htopic⟩
    obtain ⟨e, he, hplain⟩ := (hmem topic).mp htopic
    exact ⟨e, he, Option.isSome_iff_exists.mpr ⟨topic, hplain⟩⟩

/-- **The response is empty** exactly as long as there has been no late request. -/
theorem topics_eq_nil_iff (es : List (AnnounceEvent Node)) :
    (announcerAfter es).topics = [] ↔ lateShakes es = 0 := by
  induction es using List.reverseRecOn with
  | nil => exact iff_of_true rfl rfl
  | append_singleton es e ih =>
      rw [announcerAfter_concat, topics_step, lateShakes_concat]
      cases e with
      | putContext topic n system => simpa [AnnounceEvent.isShake] using ih
      | shake order =>
          have hlength := (order.perm ((announcerAfter es).contexts.map Prod.fst)).length_eq
          have hlisted : order.enumerate ((announcerAfter es).contexts.map Prod.fst) = [] ↔
              ¬ es.any AnnounceEvent.isPlain = true := by
            rw [any_isPlain_iff, not_not, ← List.length_eq_zero_iff, hlength, List.length_map,
              List.length_eq_zero_iff]
          rw [List.append_eq_nil_iff, ih, hlisted, Nat.add_eq_zero_iff]
          simp [AnnounceEvent.isShake]

/-- The answers so far, and one more event. -/
theorem announces_concat (es : List (AnnounceEvent Node)) (e : AnnounceEvent Node) :
    Announces (es ++ [e]) ↔ Announces es ∧ (e.isShake = true → lateShakes es = 0) := by
  constructor
  · intro h
    constructor
    · rintro before order after rfl
      exact h before order (after ++ [e]) (by simp)
    · cases e with
      | putContext topic n system => exact fun hshake => (nomatch hshake)
      | shake order =>
          exact fun _ => (topics_eq_nil_iff es).mp ((count_ctxShake_iff es order).mp
            (h es order [] rfl))
  · rintro ⟨hes, hlast⟩ before order after hsplit
    rcases List.eq_nil_or_concat after with rfl | ⟨after, e', rfl⟩
    · obtain ⟨rfl, he⟩ := List.append_inj' hsplit rfl
      obtain rfl := (List.cons.inj he).1
      exact (count_ctxShake_iff es order).mpr ((topics_eq_nil_iff es).mpr (hlast rfl))
    · rw [List.concat_eq_append, ← List.cons_append, ← List.append_assoc] at hsplit
      exact hes before order after (List.append_inj' hsplit rfl).1

/-- **When topics are announced.** For every sequence of registrations, plain and of the system and
with repeated topics, and shake requests: every answer lists each topic registered so far as a plain
context once, and no other, exactly when at most one of the requests comes after the first plain
registration. -/
theorem announces_iff (es : List (AnnounceEvent Node)) : Announces es ↔ lateShakes es ≤ 1 := by
  induction es using List.reverseRecOn with
  | nil =>
      refine iff_of_true (fun before order after h => ?_) (Nat.zero_le 1)
      simp at h
  | append_singleton es e ih =>
      have hnone : ¬ es.any AnnounceEvent.isPlain = true → lateShakes es = 0 := by
        intro h
        rw [lateShakes, (dropWhile_eq_nil_iff_any es).mpr h, List.countP_nil]
      rw [announces_concat, ih, lateShakes_concat]
      by_cases hplain : es.any AnnounceEvent.isPlain = true
      · cases hshake : e.isShake with
        | false => simp
        | true =>
            simp only [hplain, true_and, if_true, forall_const]
            omega
      · simp [hplain, hnone hplain]

/-- **The second answer lists a topic twice.** -/
theorem not_announces_twice :
    ¬ Announces [.putContext [97] () false, .shake ⟨id, List.Perm.refl⟩,
      .shake ⟨id, List.Perm.refl⟩] := by
  intro h
  have htwice := (h [.putContext [97] () false, .shake ⟨id, List.Perm.refl⟩] ⟨id, List.Perm.refl⟩ []
    rfl [97]).1 ⟨_, List.mem_cons_self, rfl⟩
  exact absurd htwice (by decide)

end Aquarius
