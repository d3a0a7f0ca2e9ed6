import Aquarius.Library.Transition
import Aquarius.ClientPool

/-!
# Topic Routing of `serviced`

The pool of instances and the registry of contexts have to stay in step: a topic that a live
instance has announced must be bound to a context that reaches a live instance which announced
it. The pool keeps dead entries in front of live ones, and the registry keeps the first context
of a topic for good, so they do not.

`Served` adds to the pool what the outside knows: for every live instance the topics it has
announced since it was last closed. A registration counts when all its connections are
established.

## Main results

* `follows_step_iff`: what one event has to satisfy, no more and no less, for the routing to
  stay right.
* `follows_run`: **the routing follows the registrations** along every run of such events.
* `not_follows_replaced`: an instance that takes over the topic of one that has closed.
-/

open Decoding Transition

namespace Aquarius

/-! ### Instances and their topics -/

/-- The pool, and the topics that every live instance has announced. -/
structure Served where
  state : PoolState
  announced : Bytes → BitVec 64 → Option (List Bytes) := fun _ _ => none

namespace Served

variable (w : Served)

/-- The topics of an instance, after it has announced some. -/
def announce (group : Bytes) (hostPort : BitVec 64) (topics : List Bytes) :
    Bytes → BitVec 64 → Option (List Bytes) := fun group' hostPort' =>
  if group' = group ∧ hostPort' = hostPort then
    some ((w.announced group hostPort).getD [] ++ topics)
  else w.announced group' hostPort'

/-- The topics of the live instances, after one has closed. -/
def forget (group : Bytes) (hostPort : BitVec 64) : Bytes → BitVec 64 → Option (List Bytes) :=
  fun group' hostPort' =>
    if group' = group ∧ hostPort' = hostPort then none else w.announced group' hostPort'

/-- One event. -/
def step : PoolEvent → Served
  | .shake group hostPort r connect topicsOf =>
      { state := w.state.shake group hostPort r connect topicsOf
        announced := if established connect then w.announce group hostPort (topicsOf hostPort)
          else w.announced }
  | .close group hostPort =>
      { state := w.state.close group hostPort
        announced := w.forget group hostPort }

/-- The topic is bound to a context whose function reaches, over a live connection, a live
instance that has announced the topic. -/
def Routed (topic : Bytes) : Prop :=
  ∃ group hostPort info topics, w.state.get topic = some (.transfer group hostPort) ∧
    w.state.reached group hostPort = some info ∧ info.connected = true ∧
    w.announced group info.hostPort = some topics ∧ topic ∈ topics

/-- **Topic routing follows registrations**: every topic of a live instance is routed. -/
def Follows : Prop :=
  ∀ group hostPort topics topic, w.announced group hostPort = some topics → topic ∈ topics →
    w.Routed topic

/-- What a registration asks of a topic that the instance announces. It is not one of the system
contexts; where it is not bound, the first entry of the instance, which is the one asked for its
topics, is its own and alive; where it is bound, its context reaches a live instance that has
announced it, or the new one. -/
def Bindable (group : Bytes) (hostPort : BitVec 64) (r : Registration) (connect : ℕ → Bool)
    (topic : Bytes) : Prop :=
  w.state.sysContexts topic = false ∧
    ((w.state.contexts topic = none ∧
        ∃ info, (w.state.add group hostPort r connect).reached group hostPort = some info ∧
          info.connected = true ∧ info.hostPort = hostPort) ∨
      ∃ group' hostPort' info, w.state.contexts topic = some (.transfer group' hostPort') ∧
        (w.state.add group hostPort r connect).reached group' hostPort' = some info ∧
        info.connected = true ∧
        ((group' = group ∧ info.hostPort = hostPort) ∨
          ∃ topics, w.announced group' info.hostPort = some topics ∧ topic ∈ topics))

/-- What an event has to satisfy. A registration that succeeds announces only topics that it can
bind. An instance that closes must not be the one that a topic of another live instance is routed
to. A registration that fails may do anything. -/
def Keeps : PoolEvent → Prop
  | .shake group hostPort r connect topicsOf =>
      established connect = true →
        ∀ topic ∈ topicsOf hostPort, w.Bindable group hostPort r connect topic
  | .close group hostPort =>
      ∀ group' hostPort' topics topic, ¬ (group' = group ∧ hostPort' = hostPort) →
        w.announced group' hostPort' = some topics → topic ∈ topics →
        ∀ group'' hostPort'' info, w.state.get topic = some (.transfer group'' hostPort'') →
          w.state.reached group'' hostPort'' = some info →
          ¬ (group'' = group ∧ info.hostPort = hostPort)

end Served

/-! ### What an event does to the entries and the contexts -/

section Effects

variable (s : PoolState)

/-- Binding topics touches no system context. -/
@[simp] theorem sysContexts_shake (group : Bytes) (hostPort : BitVec 64) (r : Registration)
    (connect : ℕ → Bool) (topicsOf : BitVec 64 → List Bytes) :
    (s.shake group hostPort r connect topicsOf).sysContexts = s.sysContexts := by
  have hput : ∀ (topics : List Bytes) (context : BoundContext) (s : PoolState),
      (topics.foldl (fun s topic => s.put topic context) s).sysContexts = s.sysContexts := by
    intro topics context
    induction topics with
    | nil => exact fun s => rfl
    | cons topic topics ih =>
        intro s
        rw [List.foldl_cons, ih, PoolState.put]
        split
        · rfl
        · rfl
  rw [PoolState.shake, hput]
  rfl

/-- Binding topics one after another keeps what is bound and binds the rest. -/
theorem contexts_foldl_put (topics : List Bytes) (context : BoundContext) (s : PoolState)
    (topic : Bytes) :
    (topics.foldl (fun s topic => s.put topic context) s).contexts topic =
      if (s.contexts topic).isSome then s.contexts topic
      else if topic ∈ topics then some context else none := by
  induction topics generalizing s with
  | nil =>
      cases h : s.contexts topic with
      | none => simp [h]
      | some c => simp [h]
  | cons first topics ih =>
      rw [List.foldl_cons, ih, PoolState.put]
      by_cases hfirst : (s.contexts first).isSome
      · rw [if_pos hfirst]
        by_cases htopic : topic = first
        · subst htopic
          simp [hfirst]
        · simp [htopic]
      · rw [if_neg hfirst]
        by_cases htopic : topic = first
        · subst htopic
          simp [hfirst]
        · simp [htopic]

/-- Reaching an entry goes on reaching it when others are appended. -/
theorem reached_add_of_some {group' : Bytes} {hostPort' : BitVec 64} {info : ClientInfo}
    (h : s.reached group' hostPort' = some info) (group : Bytes) (hostPort : BitVec 64)
    (r : Registration) (connect : ℕ → Bool) :
    (s.add group hostPort r connect).reached group' hostPort' = some info := by
  rw [PoolState.reached] at h ⊢
  by_cases hgroup : group' = group
  · subst hgroup
    rw [PoolState.pool_add_self]
    split at h
    · rename_i hzero
      rw [if_pos hzero, List.head?_append, h]
      rfl
    · rename_i hzero
      rw [if_neg hzero, List.find?_append, h]
      rfl
  · rwa [PoolState.pool_add_of_ne s hgroup]

/-- The pool of a `shake` is that of its `add`. -/
@[simp] theorem reached_shake (group : Bytes) (hostPort : BitVec 64) (r : Registration)
    (connect : ℕ → Bool) (topicsOf : BitVec 64 → List Bytes) (group' : Bytes)
    (hostPort' : BitVec 64) :
    (s.shake group hostPort r connect topicsOf).reached group' hostPort' =
      (s.add group hostPort r connect).reached group' hostPort' := by
  rw [PoolState.reached, PoolState.reached, PoolState.pool_shake]

/-- Closing keeps the order of the entries. -/
theorem reached_close (group : Bytes) (hostPort : BitVec 64) (group' : Bytes)
    (hostPort' : BitVec 64) :
    (s.close group hostPort).reached group' hostPort' =
      (s.reached group' hostPort').map fun info =>
        if group' = group ∧ info.hostPort = hostPort then info.disconnect else info := by
  have hhost : ∀ info : ClientInfo,
      (if info.hostPort = hostPort then info.disconnect else info).hostPort = info.hostPort := by
    intro info
    split
    · rfl
    · rfl
  rw [PoolState.reached, PoolState.reached]
  by_cases hgroup : group' = group
  · subst hgroup
    rw [PoolState.pool_close_self]
    by_cases hzero : hostPort' = 0
    · rw [if_pos hzero, if_pos hzero, List.head?_map]
      simp
    · have hsame : ((fun info : ClientInfo => decide (info.hostPort = hostPort')) ∘
          fun info => if info.hostPort = hostPort then info.disconnect else info) =
            fun info => decide (info.hostPort = hostPort') := by
        funext info
        rw [Function.comp_apply, hhost]
      rw [if_neg hzero, if_neg hzero, List.find?_map, hsame]
      simp
  · rw [PoolState.pool_close_of_ne s hgroup]
    simp [hgroup]

/-- What `get` finds after a `shake`. -/
theorem get_shake (group : Bytes) (hostPort : BitVec 64) (r : Registration) (connect : ℕ → Bool)
    (topicsOf : BitVec 64 → List Bytes) (topic : Bytes) :
    (s.shake group hostPort r connect topicsOf).get topic =
      if s.sysContexts topic then some .handler
      else if (s.contexts topic).isSome then s.contexts topic
      else if topic ∈ (s.add group hostPort r connect).shakeTopics group hostPort topicsOf then
        some (.transfer group hostPort)
      else none := by
  rw [PoolState.get, sysContexts_shake, PoolState.shake, contexts_foldl_put]
  rfl

/-- What is bound stays bound. -/
theorem get_shake_of_some {topic : Bytes} {context : BoundContext}
    (h : s.get topic = some context) (group : Bytes) (hostPort : BitVec 64) (r : Registration)
    (connect : ℕ → Bool) (topicsOf : BitVec 64 → List Bytes) :
    (s.shake group hostPort r connect topicsOf).get topic = some context := by
  rw [get_shake]
  rw [PoolState.get] at h
  split at h
  · rename_i hsys
    rw [if_pos hsys]
    exact h
  · rename_i hsys
    rw [if_neg hsys, h]
    rfl

end Effects

/-! ### One event -/

namespace Served

variable {w : Served}

/-- What an instance has announced it has announced afterwards, too. -/
private theorem announce_of_mem {group group' : Bytes} {hostPort hostPort' : BitVec 64}
    {topics topics' : List Bytes} {topic : Bytes}
    (h : w.announced group' hostPort' = some topics) (hmem : topic ∈ topics) :
    ∃ ts, w.announce group hostPort topics' group' hostPort' = some ts ∧ topic ∈ ts := by
  rw [announce]
  split
  · rename_i hsame
    refine ⟨_, rfl, List.mem_append_left _ ?_⟩
    rw [← hsame.1, ← hsame.2, h]
    exact hmem
  · exact ⟨topics, h, hmem⟩

/-- What an instance announces, it has announced. -/
private theorem announce_self (group : Bytes) (hostPort : BitVec 64) (topics : List Bytes) :
    w.announce group hostPort topics group hostPort =
      some ((w.announced group hostPort).getD [] ++ topics) :=
  if_pos ⟨rfl, rfl⟩

/-- The topics announced after a `shake` were announced before, or are those of the instance. -/
private theorem mem_announce {group group' : Bytes} {hostPort hostPort' : BitVec 64}
    {topics ts : List Bytes} {topic : Bytes}
    (h : w.announce group hostPort topics group' hostPort' = some ts) (hmem : topic ∈ ts) :
    (∃ ts', w.announced group' hostPort' = some ts' ∧ topic ∈ ts') ∨
      (group' = group ∧ hostPort' = hostPort ∧ topic ∈ topics) := by
  rw [announce] at h
  split at h
  · rename_i hsame
    obtain ⟨rfl, rfl⟩ := hsame
    obtain rfl := Option.some.inj h
    rcases List.mem_append.mp hmem with hold | hnew
    · cases hann : w.announced group' hostPort' with
      | none => simp [hann] at hold
      | some ts' =>
          rw [hann] at hold
          exact .inl ⟨ts', rfl, hold⟩
    · exact .inr ⟨rfl, rfl, hnew⟩
  · exact .inl ⟨ts, h, hmem⟩

/-- A topic that is routed is routed after a `shake`. -/
private theorem routed_shake {topic : Bytes} (h : w.Routed topic) (group : Bytes)
    (hostPort : BitVec 64) (r : Registration) (connect : ℕ → Bool)
    (topicsOf : BitVec 64 → List Bytes) :
    (w.step (.shake group hostPort r connect topicsOf)).Routed topic := by
  obtain ⟨group', hostPort', info, topics, hget, hreached, hconnected, hannounced, hmem⟩ := h
  obtain ⟨ts, hts, hmem'⟩ : ∃ ts, (w.step (.shake group hostPort r connect topicsOf)).announced
      group' info.hostPort = some ts ∧ topic ∈ ts := by
    rw [step]
    cases established connect with
    | false => exact ⟨topics, hannounced, hmem⟩
    | true => exact announce_of_mem hannounced hmem
  refine ⟨group', hostPort', info, ts, ?_, ?_, hconnected, hts, hmem'⟩
  · exact get_shake_of_some _ hget ..
  · rw [step, reached_shake]
    exact reached_add_of_some _ hreached ..

/-- A registration that fails changes nothing for the topics that are routed. -/
private theorem follows_shake_of_failed {group : Bytes} {hostPort : BitVec 64}
    {r : Registration} {connect : ℕ → Bool} {topicsOf : BitVec 64 → List Bytes}
    (hfollows : w.Follows) (hfailed : established connect = false) :
    (w.step (.shake group hostPort r connect topicsOf)).Follows := by
  intro group' hostPort' topics topic hannounced hmem
  have hold : w.announced group' hostPort' = some topics := by
    rw [step, hfailed] at hannounced
    exact hannounced
  exact routed_shake (hfollows group' hostPort' topics topic hold hmem) ..

section Shake

variable {group : Bytes} {hostPort : BitVec 64} {r : Registration} {connect : ℕ → Bool}
  {topicsOf : BitVec 64 → List Bytes} {topic : Bytes}

/-- A registration that succeeds announces the topics of the instance. -/
private theorem announced_shake (hconnect : established connect = true) :
    (w.step (.shake group hostPort r connect topicsOf)).announced =
      w.announce group hostPort (topicsOf hostPort) := by
  rw [step, hconnect]
  rfl

/-- A topic that is routed after a registration satisfied it. -/
private theorem bindable_of_routed_shake (hfollows : w.Follows)
    (hconnect : established connect = true)
    (hrouted : (w.step (.shake group hostPort r connect topicsOf)).Routed topic) :
    w.Bindable group hostPort r connect topic := by
  obtain ⟨group', hostPort', info, topics, hget, hreached, hconnected, hannounced, hmem⟩ := hrouted
  rw [announced_shake hconnect] at hannounced
  rw [step, reached_shake] at hreached
  rw [step, get_shake] at hget
  split at hget
  · cases hget
  rename_i hsys
  refine ⟨by simpa using hsys, ?_⟩
  cases hcontext : w.state.contexts topic with
  | some context =>
      simp only [hcontext, Option.isSome_some, if_true] at hget
      refine .inr ⟨group', hostPort', info, hget, hreached, hconnected, ?_⟩
      rcases mem_announce hannounced hmem with hold | ⟨hgroup, hhost, -⟩
      · exact .inr hold
      · exact .inl ⟨hgroup, hhost⟩
  | none =>
      simp only [hcontext, Option.isSome_none, Bool.false_eq_true, if_false] at hget
      split at hget
      · cases hget
        refine .inl ⟨rfl, info, hreached, hconnected, ?_⟩
        rcases mem_announce hannounced hmem with ⟨ts, hts, hold⟩ | ⟨-, hhost, -⟩
        · -- the topic was announced before, so it was bound
          obtain ⟨_, _, _, _, hbound, -⟩ := hfollows _ _ _ topic hts hold
          rw [PoolState.get, if_neg hsys, hcontext] at hbound
          cases hbound
        · exact hhost
      · cases hget

/-- A topic of the new instance that satisfies it is routed after the registration. -/
private theorem routed_shake_of_bindable (hconnect : established connect = true)
    (hnew : topic ∈ topicsOf hostPort) (hbindable : w.Bindable group hostPort r connect topic) :
    (w.step (.shake group hostPort r connect topicsOf)).Routed topic := by
  obtain ⟨hsys, hcases⟩ := hbindable
  have hself : ∃ ts, w.announce group hostPort (topicsOf hostPort) group hostPort = some ts ∧
      topic ∈ ts := ⟨_, announce_self .., List.mem_append_right _ hnew⟩
  rcases hcases with ⟨hnone, info, hreached, hconnected, hhost⟩ |
    ⟨group₁, hostPort₁, info, hcontext, hreached, hconnected, hlive⟩
  · obtain ⟨ts, hts, hmem⟩ := hself
    refine ⟨group, hostPort, info, ts, ?_, ?_, hconnected, ?_, hmem⟩
    · have hasked : topic ∈ (w.state.add group hostPort r connect).shakeTopics group hostPort
          topicsOf := by
        rw [PoolState.shakeTopics, hreached]
        simpa [hconnected, hhost] using hnew
      rw [step, get_shake]
      simp [hsys, hnone, hasked]
    · rw [step, reached_shake]
      exact hreached
    · rw [announced_shake hconnect, hhost]
      exact hts
  · obtain ⟨ts, hts, hmem⟩ : ∃ ts,
        w.announce group hostPort (topicsOf hostPort) group₁ info.hostPort = some ts ∧
          topic ∈ ts := by
      rcases hlive with ⟨rfl, hhost⟩ | ⟨ts, hts, hold⟩
      · rw [hhost]
        exact hself
      · exact announce_of_mem hts hold
    refine ⟨group₁, hostPort₁, info, ts, ?_, ?_, hconnected, ?_, hmem⟩
    · rw [step, get_shake]
      simp [hsys, hcontext]
    · rw [step, reached_shake]
      exact hreached
    · rw [announced_shake hconnect]
      exact hts

/-- What a registration that succeeds has to satisfy. -/
private theorem follows_shake_iff (hfollows : w.Follows) (hconnect : established connect = true) :
    (w.step (.shake group hostPort r connect topicsOf)).Follows ↔
      w.Keeps (.shake group hostPort r connect topicsOf) := by
  constructor
  · intro hfollows' _ topic htopic
    have hrouted := hfollows' group hostPort _ topic
      (by rw [announced_shake hconnect, announce_self]) (List.mem_append_right _ htopic)
    exact bindable_of_routed_shake hfollows hconnect hrouted
  · intro hkeeps group' hostPort' topics topic hannounced hmem
    rw [announced_shake hconnect] at hannounced
    rcases mem_announce hannounced hmem with ⟨ts, hts, hold⟩ | ⟨-, -, hnew⟩
    · exact routed_shake (hfollows _ _ _ topic hts hold) ..
    · exact routed_shake_of_bindable hconnect hnew (hkeeps hconnect topic hnew)

end Shake

/-- What the end of an instance has to satisfy. -/
private theorem follows_close_iff {group : Bytes} {hostPort : BitVec 64}
    (hfollows : w.Follows) :
    (w.step (.close group hostPort)).Follows ↔ w.Keeps (.close group hostPort) := by
  have hforget : ∀ group' hostPort', ¬ (group' = group ∧ hostPort' = hostPort) →
      (w.step (.close group hostPort)).announced group' hostPort' =
        w.announced group' hostPort' :=
    fun _ _ hne => if_neg hne
  have hclosed : ∀ group' hostPort', group' = group ∧ hostPort' = hostPort →
      (w.step (.close group hostPort)).announced group' hostPort' = none :=
    fun _ _ hsame => if_pos hsame
  constructor
  · intro hfollows' group' hostPort' topics topic hne hannounced hmem group₁ hostPort₁ info hget
      hreached hsame
    rw [← hforget _ _ hne] at hannounced
    obtain ⟨group₂, hostPort₂, info₂, ts, hget₂, hreached₂, -, hannounced₂, -⟩ :=
      hfollows' _ _ _ topic hannounced hmem
    have hsameget : w.state.get topic = some (.transfer group₂ hostPort₂) := hget₂
    rw [hget] at hsameget
    cases hsameget
    rw [step, reached_close, hreached, Option.map_some, if_pos hsame] at hreached₂
    cases hreached₂
    rw [hclosed group₁ info.disconnect.hostPort hsame] at hannounced₂
    cases hannounced₂
  · intro hkeeps group' hostPort' topics topic hannounced hmem
    have hne : ¬ (group' = group ∧ hostPort' = hostPort) := by
      intro hsame
      rw [hclosed group' hostPort' hsame] at hannounced
      cases hannounced
    rw [hforget _ _ hne] at hannounced
    obtain ⟨group₁, hostPort₁, info, ts, hget, hreached, hconnected, hlive, hmem'⟩ :=
      hfollows _ _ _ topic hannounced hmem
    have hother := hkeeps _ _ _ topic hne hannounced hmem _ _ _ hget hreached
    refine ⟨group₁, hostPort₁, info, ts, hget, ?_, hconnected, ?_, hmem'⟩
    · rw [step, reached_close, hreached, Option.map_some, if_neg hother]
    · rw [hforget _ _ hother]
      exact hlive

/-- **One event.** Where the routing follows the registrations, it goes on to do so after an
event if and only if the event satisfies `Keeps`. -/
theorem follows_step_iff (hfollows : w.Follows) (e : PoolEvent) :
    (w.step e).Follows ↔ w.Keeps e := by
  cases e with
  | shake group hostPort r connect topicsOf =>
      cases hconnect : established connect with
      | true => exact follows_shake_iff hfollows hconnect
      | false =>
          refine ⟨fun _ hest => ?_, fun _ => follows_shake_of_failed hfollows hconnect⟩
          rw [hconnect] at hest
          cases hest
  | close group hostPort => exact follows_close_iff hfollows

end Served

/-! ### Runs -/

/-- **Topic routing follows registrations** in every state of every run, from whatever contexts
the process has at first, in which each event satisfies `Keeps`. -/
theorem follows_run (contexts : Bytes → Option BoundContext) (sysContexts : Bytes → Bool)
    {es : List PoolEvent} {w : Served}
    (hrun : Run (fun w e => some (Served.step w e)) Served.Keeps
      { state := { contexts := contexts, sysContexts := sysContexts } } es w) :
    w.Follows := by
  refine hrun.invariant (I := Served.Follows) ?_ ?_
  · intro w e w' hfollows hkeeps hstep
    obtain rfl := Option.some.inj hstep
    exact (Served.follows_step_iff hfollows e).mpr hkeeps
  · intro group hostPort topics topic hannounced
    cases hannounced

/-- An instance of the group `g` that announces the topic `t`. -/
def announces (hostPort : BitVec 64) : PoolEvent :=
  .shake [103] hostPort plainRegistration (fun _ => true) fun _ => [[116]]

/-- One instance registers, then another that shares its topic. -/
theorem follows_shared :
    ∃ w, Run (fun w e => some (Served.step w e)) Served.Keeps { state := {} }
      [announces 1, announces 2] w ∧ w.Follows ∧ w.announced [103] 2 = some [[116]] := by
  have hrun : Run (fun w e => some (Served.step w e)) Served.Keeps { state := {} }
      [announces 1, announces 2]
      (((Served.mk {} fun _ _ => none).step (announces 1)).step (announces 2)) := by
    refine Run.cons ?_ rfl (Run.cons ?_ rfl (Run.nil _))
    · intro _ topic _
      exact ⟨rfl, .inl ⟨rfl, newEntry 1 plainRegistration fun _ => true, rfl, rfl, rfl⟩⟩
    · intro _ topic htopic
      obtain rfl := List.mem_singleton.mp htopic
      exact ⟨rfl, .inr ⟨[103], 1, newEntry 1 plainRegistration fun _ => true, rfl, rfl, rfl,
        .inr ⟨[[116]], rfl, List.mem_singleton.mpr rfl⟩⟩⟩
  exact ⟨_, hrun, follows_run _ _ hrun, rfl⟩

/-- **A stale binding.** An instance announces a topic and closes; another one registers with
the same topic. The topic stays bound to the context of the first. -/
theorem not_follows_replaced :
    ¬ ([announces 1, .close [103] 1, announces 2].foldl Served.step { state := {} }).Follows := by
  intro hfollows
  obtain ⟨group, hostPort, info, topics, hget, hreached, hconnected, -⟩ :=
    hfollows [103] 2 [[116]] [116] rfl (List.mem_singleton.mpr rfl)
  have hbound : ([announces 1, .close [103] 1, announces 2].foldl Served.step
      { state := {} }).state.get [116] = some (.transfer [103] 1) := rfl
  rw [hbound] at hget
  cases hget
  have hdead : ([announces 1, .close [103] 1, announces 2].foldl Served.step
      { state := {} }).state.reached [103] 1 =
        some (newEntry 1 plainRegistration fun _ => true).disconnect := rfl
  rw [hdead] at hreached
  cases hreached
  cases hconnected

end Aquarius
