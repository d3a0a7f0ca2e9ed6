import Aquarius.Library.Decoder
import Mathlib.Data.List.Basic
import Mathlib.Logic.Function.Basic

/-!
# The Client Pool of `serviced`

`client_pool` (`serviced/client_pool.h`, `serviced/client_pool.cpp`) keeps, for every group, a
vector of `client_info`, one for each registration of an instance, and binds the topics that an
instance announces to contexts in the `context_reg` (`ip/context_reg.hpp`) of the process.

`add` appends the entry before it connects, does not look for an entry of the same instance,
never assigns `weight`, and returns in the middle of its loop when a connection fails. The
callback that would erase the entry is a coroutine stored in an `std::function<void(...)>`
(`basic_client.hpp`): what it returns is not awaited, so its body never runs, and the entry
stays. The connections of an instance that has closed are dead, nothing else changes.

`invoke` builds its round robin anew in every call, so it always takes the first connection of
the entry it finds, and the first entry of the group when it is given the host 0.

## Main results

* `registrations_pool`: the entries of an instance are its registrations, all of them, with
  weight zero.
* `represents_iff`: **the representation invariant** holds of exactly those histories in which
  every instance registers at most once, last, successfully and with weight zero.
-/

open Decoding

namespace Aquarius

/-! ### Entries -/

/-- What an instance registers with. -/
structure Registration where
  name : Bytes
  healthy : Bool
  weight : BitVec 32
  version : Bytes
  deriving DecidableEq, Repr

/-- `client_info`. A client is `none` while the pointer is null, and otherwise connected or
not. -/
structure ClientInfo where
  hostPort : BitVec 64
  registration : Registration
  clients : List (Option Bool)
  deriving DecidableEq, Repr

/-- `max_connection` -/
def maxConnection : ℕ := 2

/-- The loop of `add` over the clients: it stops at the first that does not connect, and leaves
the others null. -/
def connectClients : List Bool → List (Option Bool)
  | [] => []
  | true :: rest => some true :: connectClients rest
  | false :: rest => some false :: rest.map fun _ => none

/-- The entry `add` appends; `weight` keeps the zero it is initialised with. -/
def newEntry (hostPort : BitVec 64) (r : Registration) (connect : ℕ → Bool) : ClientInfo where
  hostPort := hostPort
  registration := { r with weight := 0 }
  clients := connectClients ((List.range maxConnection).map connect)

/-- All connections of a registration are established. -/
def established (connect : ℕ → Bool) : Bool := (List.range maxConnection).all connect

/-- The connection that `invoke` takes, the first one, is alive. -/
def ClientInfo.connected (info : ClientInfo) : Bool := info.clients.head? = some (some true)

/-- The connections of an instance that has closed are dead. -/
def ClientInfo.disconnect (info : ClientInfo) : ClientInfo :=
  { info with clients := info.clients.map fun c => c.map fun _ => false }

/-! ### The pool and the contexts -/

/-- What a topic is bound to: a context of the process itself, or a transfer context, by what
its function has captured. -/
inductive BoundContext where
  | handler
  | transfer (group : Bytes) (hostPort : BitVec 64)
  deriving DecidableEq, Repr

/-- `pool_`, where a group that is missing is an empty one, with `contexts_` and the topics in
`sys_contexts_`, which no transfer context is put into. -/
structure PoolState where
  pool : Bytes → List ClientInfo := fun _ => []
  contexts : Bytes → Option BoundContext := fun _ => none
  sysContexts : Bytes → Bool := fun _ => false

/-- What happens to the pool: a call of `shake`, with the outcome of each connection attempt and
the topics that the instance at each host would announce, or the end of an instance. -/
inductive PoolEvent where
  | shake (group : Bytes) (hostPort : BitVec 64) (r : Registration) (connect : ℕ → Bool)
      (topicsOf : BitVec 64 → List Bytes)
  | close (group : Bytes) (hostPort : BitVec 64)

namespace PoolState

variable (s : PoolState)

/-- `client_pool::add` -/
def add (group : Bytes) (hostPort : BitVec 64) (r : Registration) (connect : ℕ → Bool) :
    PoolState :=
  let g := s.pool group ++ [newEntry hostPort r connect]
  { s with pool := Function.update s.pool group g }

/-- The entry that `client_pool::invoke` finds. -/
def reached (group : Bytes) (hostPort : BitVec 64) : Option ClientInfo :=
  if hostPort = 0 then (s.pool group).head?
  else (s.pool group).find? (·.hostPort = hostPort)

/-- The topics in the response to the shake request: those of the instance that is reached, and
none when the connection is dead. -/
def shakeTopics (group : Bytes) (hostPort : BitVec 64) (topicsOf : BitVec 64 → List Bytes) :
    List Bytes :=
  match s.reached group hostPort with
  | none => []
  | some info => if info.connected then topicsOf info.hostPort else []

/-- `context_reg::put`, which keeps a context that is there -/
def put (topic : Bytes) (context : BoundContext) : PoolState :=
  if (s.contexts topic).isSome then s
  else { s with contexts := Function.update s.contexts topic (some context) }

/-- `context_reg::get` -/
def get (topic : Bytes) : Option BoundContext :=
  if s.sysContexts topic then some .handler else s.contexts topic

/-- `client_pool::shake` -/
def shake (group : Bytes) (hostPort : BitVec 64) (r : Registration) (connect : ℕ → Bool)
    (topicsOf : BitVec 64 → List Bytes) : PoolState :=
  let s := s.add group hostPort r connect
  (s.shakeTopics group hostPort topicsOf).foldl
    (fun s topic => s.put topic (.transfer group hostPort)) s

/-- The end of an instance. -/
def close (group : Bytes) (hostPort : BitVec 64) : PoolState :=
  let g := (s.pool group).map fun info =>
    if info.hostPort = hostPort then info.disconnect else info
  { s with pool := Function.update s.pool group g }

/-- One event. -/
def step : PoolEvent → PoolState
  | .shake group hostPort r connect topicsOf => s.shake group hostPort r connect topicsOf
  | .close group hostPort => s.close group hostPort

@[simp] theorem pool_add_self (group : Bytes) (hostPort : BitVec 64) (r : Registration)
    (connect : ℕ → Bool) :
    (s.add group hostPort r connect).pool group =
      s.pool group ++ [newEntry hostPort r connect] :=
  Function.update_self ..

theorem pool_add_of_ne {group group' : Bytes} (h : group' ≠ group) (hostPort : BitVec 64)
    (r : Registration) (connect : ℕ → Bool) :
    (s.add group hostPort r connect).pool group' = s.pool group' :=
  Function.update_of_ne h ..

@[simp] theorem pool_close_self (group : Bytes) (hostPort : BitVec 64) :
    (s.close group hostPort).pool group = (s.pool group).map fun info =>
      if info.hostPort = hostPort then info.disconnect else info :=
  Function.update_self ..

theorem pool_close_of_ne {group group' : Bytes} (h : group' ≠ group) (hostPort : BitVec 64) :
    (s.close group hostPort).pool group' = s.pool group' :=
  Function.update_of_ne h ..

@[simp] theorem pool_put (topic : Bytes) (context : BoundContext) :
    (s.put topic context).pool = s.pool := by
  rw [put]
  split
  · rfl
  · rfl

@[simp] theorem pool_foldl_put (topics : List Bytes) (context : BoundContext) :
    (topics.foldl (fun s topic => s.put topic context) s).pool = s.pool := by
  induction topics generalizing s with
  | nil => rfl
  | cons topic topics ih => rw [List.foldl_cons, ih, pool_put]

/-- Binding topics does not touch the pool. -/
@[simp] theorem pool_shake (group : Bytes) (hostPort : BitVec 64) (r : Registration)
    (connect : ℕ → Bool) (topicsOf : BitVec 64 → List Bytes) :
    (s.shake group hostPort r connect topicsOf).pool = (s.add group hostPort r connect).pool :=
  pool_foldl_put _ _ _

/-- The registrations in the entries of an instance, in order. -/
def registrations (group : Bytes) (hostPort : BitVec 64) : List Registration :=
  ((s.pool group).filter (·.hostPort = hostPort)).map ClientInfo.registration

end PoolState

/-! ### The entries of an instance -/

namespace PoolEvent

/-- The event is about the instance. -/
def about (group : Bytes) (hostPort : BitVec 64) : PoolEvent → Bool
  | shake group' hostPort' _ _ _ => group' = group ∧ hostPort' = hostPort
  | close group' hostPort' => group' = group ∧ hostPort' = hostPort

/-- What the event adds to the entries of the instance it is about. -/
def entry : PoolEvent → Option Registration
  | shake _ _ r _ _ => some { r with weight := 0 }
  | close _ _ => none

/-- The registration an instance has after the event, given that it had `last` before: a
registration counts when all its connections are established, and the end of the instance
ends it. -/
def update (last : Option Registration) : PoolEvent → Option Registration
  | shake _ _ r connect _ => if established connect then some r else last
  | close _ _ => none

end PoolEvent

/-- The registration of an instance that counts after the events. -/
def lastRegistration (group : Bytes) (hostPort : BitVec 64) (es : List PoolEvent) :
    Option Registration :=
  (es.filter (PoolEvent.about group hostPort)).foldl PoolEvent.update none

/-- **The representation invariant.** Every group holds exactly one entry for every instance
that has registered with all its connections and has not closed since, with what it registered
last, and no other entry. -/
def Represents (s : PoolState) (es : List PoolEvent) : Prop :=
  ∀ group hostPort, s.registrations group hostPort =
    (lastRegistration group hostPort es).toList

/-- An event adds the entry of a registration, and changes no other registration. -/
theorem registrations_step (s : PoolState) (e : PoolEvent) (group : Bytes)
    (hostPort : BitVec 64) :
    (s.step e).registrations group hostPort = s.registrations group hostPort ++
      ([e].filter (PoolEvent.about group hostPort)).filterMap PoolEvent.entry := by
  cases e with
  | shake group' hostPort' r connect topicsOf =>
      rw [PoolState.registrations, PoolState.step, PoolState.pool_shake]
      by_cases hgroup : group' = group
      · subst hgroup
        rw [PoolState.pool_add_self, List.filter_append, List.map_append]
        by_cases hhost : hostPort' = hostPort
        · simp [PoolState.registrations, newEntry, PoolEvent.about, PoolEvent.entry, hhost]
        · simp [PoolState.registrations, newEntry, PoolEvent.about, hhost]
      · rw [PoolState.pool_add_of_ne s (Ne.symm hgroup)]
        simp [PoolState.registrations, PoolEvent.about, hgroup]
  | close group' hostPort' =>
      have hsame : (s.step (.close group' hostPort')).registrations group hostPort =
          s.registrations group hostPort := by
        rw [PoolState.registrations, PoolState.step]
        by_cases hgroup : group' = group
        · subst hgroup
          have hkeep : ∀ info : ClientInfo,
              (if info.hostPort = hostPort' then info.disconnect else info).hostPort =
                info.hostPort ∧
              (if info.hostPort = hostPort' then info.disconnect else info).registration =
                info.registration := by
            intro info
            split
            · exact ⟨rfl, rfl⟩
            · exact ⟨rfl, rfl⟩
          rw [PoolState.pool_close_self, List.filter_map, List.map_map]
          simp [PoolState.registrations, Function.comp_def, hkeep]
        · rw [PoolState.pool_close_of_ne s (Ne.symm hgroup)]
          rfl
      rw [hsame, List.filter_singleton]
      cases PoolEvent.about group hostPort (.close group' hostPort') with
      | false => simp
      | true => simp [PoolEvent.entry]

/-- **The entries of an instance** are its registrations, all of them. -/
theorem registrations_pool (es : List PoolEvent) (s : PoolState) (group : Bytes)
    (hostPort : BitVec 64) :
    (es.foldl PoolState.step s).registrations group hostPort =
      s.registrations group hostPort ++
        (es.filter (PoolEvent.about group hostPort)).filterMap PoolEvent.entry := by
  induction es generalizing s with
  | nil => simp
  | cons e es ih =>
      have hsplit : (e :: es).filter (PoolEvent.about group hostPort) =
          [e].filter (PoolEvent.about group hostPort) ++
            es.filter (PoolEvent.about group hostPort) := by
        rw [← List.filter_append, List.singleton_append]
      rw [List.foldl_cons, ih, registrations_step, hsplit, List.filterMap_append,
        List.append_assoc]

/-! ### The histories that are represented -/

/-- The events about an instance are closings, and after them at most one registration, which
establishes its connections and has weight zero. -/
def RegistersOnceLast : List PoolEvent → Prop
  | [] => True
  | .close _ _ :: es => RegistersOnceLast es
  | .shake _ _ r connect _ :: es => es = [] ∧ established connect = true ∧ r.weight = 0

/-- After a first entry, the list of entries is that of an instance only if nothing more
happens. -/
private theorem update_after_entry {es : List PoolEvent} (hes : es ≠ [])
    (last : Option Registration) (r : Registration) :
    r :: es.filterMap PoolEvent.entry ≠ (es.foldl PoolEvent.update last).toList := by
  intro h
  -- the entries after the first must be none, so every event is a closing
  have hnone : es.filterMap PoolEvent.entry = [] := by
    cases hfold : es.foldl PoolEvent.update last with
    | none =>
        rw [hfold] at h
        cases h
    | some r' =>
        rw [hfold] at h
        exact (List.cons.inj h).2
  have hlast : es.foldl PoolEvent.update last = none := by
    rw [← List.dropLast_append_getLast hes, List.foldl_append, List.foldl_cons, List.foldl_nil]
    have hentry := List.filterMap_eq_nil_iff.mp hnone _ (List.getLast_mem hes)
    cases hgetLast : es.getLast hes with
    | shake group hostPort r' connect topicsOf =>
        rw [hgetLast] at hentry
        cases hentry
    | close group hostPort => rfl
  rw [hlast] at h
  cases h

/-- The entries of one instance are what they should be exactly when it registers once, last,
with its connections and with weight zero. -/
private theorem entries_eq_iff (es : List PoolEvent) :
    es.filterMap PoolEvent.entry = (es.foldl PoolEvent.update none).toList ↔
      RegistersOnceLast es := by
  induction es with
  | nil => exact ⟨fun _ => trivial, fun _ => rfl⟩
  | cons e es ih =>
      cases e with
      | close group hostPort =>
          rw [RegistersOnceLast, ← ih]
          rfl
      | shake group hostPort r connect topicsOf =>
          rw [RegistersOnceLast]
          by_cases hes : es = []
          · subst hes
            have hfold : [PoolEvent.shake group hostPort r connect topicsOf].foldl
                PoolEvent.update none = if established connect then some r else none := rfl
            have hentry : [PoolEvent.shake group hostPort r connect topicsOf].filterMap
                PoolEvent.entry = [{ r with weight := 0 }] := rfl
            rw [hfold, hentry]
            cases hconnect : established connect with
            | false => simp
            | true =>
                obtain ⟨name, healthy, weight, version⟩ := r
                simp only [if_true, Option.toList_some, List.cons.injEq, and_true,
                  Registration.mk.injEq, true_and]
                exact eq_comm
          · refine ⟨fun h => absurd h ?_, fun h => absurd h.1 hes⟩
            exact update_after_entry hes _ _

/-- **When the pool represents the registrations.** For every finite sequence of `shake` calls,
each connection attempt succeeding or failing, and closings: each group holds exactly the
entries it should hold if and only if, for every instance, what happens to it is closings and
then at most one registration, which establishes its connections and has weight zero. -/
theorem represents_iff (contexts : Bytes → Option BoundContext) (sysContexts : Bytes → Bool)
    (es : List PoolEvent) :
    Represents (es.foldl PoolState.step { contexts := contexts, sysContexts := sysContexts }) es ↔
      ∀ group hostPort, RegistersOnceLast (es.filter (PoolEvent.about group hostPort)) := by
  refine forall_congr' fun group => forall_congr' fun hostPort => ?_
  have hempty : PoolState.registrations { contexts := contexts, sysContexts := sysContexts }
      group hostPort = [] := rfl
  rw [registrations_pool, hempty, List.nil_append, lastRegistration]
  exact entries_eq_iff _

/-- A registration with weight zero. -/
def plainRegistration : Registration where
  name := [97]
  healthy := true
  weight := 0
  version := [49]

/-- **An entry that stays.** An instance registers with both connections and closes, and the
pool still holds its entry. -/
theorem not_represents_closed :
    ¬ Represents ([PoolEvent.shake [103] 1 plainRegistration (fun _ => true) (fun _ => []),
        .close [103] 1].foldl PoolState.step {})
      [.shake [103] 1 plainRegistration (fun _ => true) (fun _ => []), .close [103] 1] := by
  intro h
  have hentries := h [103] 1
  rw [registrations_pool] at hentries
  exact absurd hentries (by decide)

end Aquarius
