import Aquarius.ClientPool

/-!
# Which Instance a Call Goes To

The selectors of `client_pool::invoke` (`serviced/client_pool.h`): a `round_robin`
(`serviced/payload.hpp`) over the entries of a group and another one over the connections of the
entry. A `round_robin` keeps the position of its next choice. Both are built anew for every call,
so each makes its first choice, and the member `round_` of the pool is not used.

Instances and connections are shared pointers; here they are known by their positions.

## Main results

* `length_clients_reachable`: every entry of a pool has its two connections.
* `evenlyDistributed_iff`: **the calls are distributed evenly** exactly when there is at most one.
* `not_evenlyDistributed_twice`: two calls to two instances go to the first.
-/

open Decoding

namespace Aquarius

/-! ### The selectors -/

/-- `round_robin` -/
structure RoundRobin where
  index : ℕ := 0
  deriving DecidableEq, Repr

/-- `round_robin::invoke` -/
def RoundRobin.invoke {α : Type} (r : RoundRobin) (entities : List α) : Option α × RoundRobin :=
  if entities.isEmpty then (none, r)
  else
    let index := if r.index ≥ entities.length then 0 else r.index
    (entities[index]?, { index := index + 1 })

/-- The choice of a call: an instance of the group, and one of its connections. -/
structure Selection where
  info : ℕ
  connection : Option ℕ
  deriving DecidableEq, Repr

/-- `client_pool`, with the selector it keeps. -/
structure SelectingPool where
  pool : PoolState := {}
  round : RoundRobin := {}

namespace SelectingPool

/-- The choice of `client_pool::invoke`, and the pool afterwards. -/
def invoke (p : SelectingPool) (group : Bytes) (hostPort : BitVec 64) :
    Option Selection × SelectingPool :=
  let entries := (p.pool.pool group).zipIdx
  let info :=
    if hostPort = 0 then (RoundRobin.invoke {} entries).1
    else entries.find? fun e => e.1.hostPort = hostPort
  (info.map fun e =>
    { info := e.2
      connection := (RoundRobin.invoke {} e.1.clients.zipIdx).1.map Prod.snd }, p)

end SelectingPool

/-- What happens to a pool: a registration or the end of an instance, or a call. -/
inductive PoolAction where
  | event (e : PoolEvent)
  | invoke (group : Bytes) (hostPort : BitVec 64)

namespace SelectingPool

/-- The pool after an action. -/
def step (p : SelectingPool) : PoolAction → SelectingPool
  | .event e => { p with pool := p.pool.step e }
  | .invoke group hostPort => (p.invoke group hostPort).2

/-- The choices of the calls for any instance of a group, along the actions. -/
def selections (group : Bytes) : SelectingPool → List PoolAction → List (Option Selection)
  | _, [] => []
  | p, .event e :: actions => selections group (p.step (.event e)) actions
  | p, .invoke group' hostPort :: actions =>
      let rest := selections group (p.step (.invoke group' hostPort)) actions
      if group' = group ∧ hostPort = 0 then (p.invoke group' hostPort).1 :: rest else rest

/-- The group stays as it is along the actions; others may change. -/
def GroupKept (group : Bytes) : SelectingPool → List PoolAction → Prop
  | _, [] => True
  | p, a :: actions =>
      (p.step a).pool.pool group = p.pool.pool group ∧ GroupKept group (p.step a) actions

end SelectingPool

/-- A call for any instance of the group. -/
def PoolAction.calls (group : Bytes) : PoolAction → Bool
  | .invoke group' hostPort => group' = group ∧ hostPort = 0
  | .event _ => false

/-- How often an instance is chosen. -/
def instanceUses (choices : List (Option Selection)) (i : ℕ) : ℕ :=
  choices.countP fun c => c.map Selection.info = some i

/-- How often a connection of an instance is chosen. -/
def connectionUses (choices : List (Option Selection)) (i j : ℕ) : ℕ :=
  choices.count (some { info := i, connection := some j })

/-- **Even distribution** over the entries of a group: each is chosen as often as the others, up to
what is left over, and so are the connections of each. -/
structure EvenlyDistributed (entries : List ClientInfo) (choices : List (Option Selection)) :
    Prop where
  instances : ∀ i < entries.length,
    instanceUses choices i = choices.length / entries.length ∨
      instanceUses choices i = (choices.length + entries.length - 1) / entries.length
  connections : ∀ i (info : ClientInfo), entries[i]? = some info →
    ∀ j < info.clients.length, ∀ j' < info.clients.length,
      connectionUses choices i j ≤ connectionUses choices i j' + 1

/-! ### The connections of an entry -/

/-- As many clients as attempts. -/
theorem length_connectClients (outcomes : List Bool) :
    (connectClients outcomes).length = outcomes.length := by
  induction outcomes with
  | nil => rfl
  | cons b outcomes ih =>
      cases b with
      | true => rw [connectClients, List.length_cons, ih, List.length_cons]
      | false => rw [connectClients, List.length_cons, List.length_map, List.length_cons]

/-- Every entry of a pool has all its connections. -/
def PoolState.FullEntries (s : PoolState) : Prop :=
  ∀ group, ∀ info ∈ s.pool group, info.clients.length = maxConnection

/-- **One event** keeps the connections of every entry. -/
theorem fullEntries_step {s : PoolState} (h : s.FullEntries) (e : PoolEvent) :
    (s.step e).FullEntries := by
  intro group info hinfo
  cases e with
  | shake group' hostPort r connect topicsOf =>
      rw [PoolState.step, PoolState.pool_shake] at hinfo
      by_cases hgroup : group = group'
      · rw [hgroup, PoolState.pool_add_self, List.mem_append, List.mem_singleton] at hinfo
        rcases hinfo with hinfo | rfl
        · exact h group' info hinfo
        · rw [newEntry, length_connectClients, List.length_map, List.length_range]
      · rw [PoolState.pool_add_of_ne s hgroup] at hinfo
        exact h group info hinfo
  | close group' hostPort =>
      rw [PoolState.step] at hinfo
      by_cases hgroup : group = group'
      · rw [hgroup, PoolState.pool_close_self, List.mem_map] at hinfo
        obtain ⟨old, hold, rfl⟩ := hinfo
        have hlength := h group' old hold
        split
        · rw [ClientInfo.disconnect, List.length_map, hlength]
        · exact hlength
      · rw [PoolState.pool_close_of_ne s hgroup] at hinfo
        exact h group info hinfo

/-- **Every entry of a reachable pool** has its two connections. -/
theorem length_clients_reachable {p : SelectingPool} (h : p.pool.FullEntries)
    (actions : List PoolAction) : (actions.foldl SelectingPool.step p).pool.FullEntries := by
  induction actions generalizing p with
  | nil => exact h
  | cons a actions ih =>
      rw [List.foldl_cons]
      cases a with
      | event e => exact ih (fullEntries_step h e)
      | invoke group hostPort => exact ih h

/-! ### The choices -/

/-- A selector that is built anew chooses the first. -/
theorem invoke_new {α : Type} (a : α) (entities : List α) :
    (RoundRobin.invoke {} (a :: entities)).1 = some a := rfl

/-- **Every call** goes to the first connection of the first instance. -/
theorem invoke_first {p : SelectingPool} {group : Bytes} (hfull : p.pool.FullEntries)
    (hne : p.pool.pool group ≠ []) :
    (p.invoke group 0).1 = some { info := 0, connection := some 0 } := by
  obtain ⟨info, entries, hentries⟩ := List.exists_cons_of_ne_nil hne
  have hclients : info.clients ≠ [] := by
    intro hnil
    have hlength := hfull group info (by rw [hentries]; exact List.mem_cons_self)
    rw [hnil] at hlength
    exact absurd hlength (by decide)
  obtain ⟨client, clients, hclient⟩ := List.exists_cons_of_ne_nil hclients
  simp only [SelectingPool.invoke, hentries, if_true, List.zipIdx_cons, invoke_new, hclient,
    Option.map_some]

/-- The calls along the actions, as long as the group is kept: one choice for all of them. -/
theorem selections_eq_replicate {group : Bytes} (actions : List PoolAction) :
    ∀ p : SelectingPool, p.pool.FullEntries → p.pool.pool group ≠ [] → p.GroupKept group actions →
      p.selections group actions = List.replicate (actions.countP (PoolAction.calls group))
        (some { info := 0, connection := some 0 }) := by
  induction actions with
  | nil => exact fun _ _ _ _ => rfl
  | cons a actions ih =>
      rintro p hfull hne ⟨hkept, hrest⟩
      have hne' : (p.step a).pool.pool group ≠ [] := hkept ▸ hne
      cases a with
      | event e =>
          have hcount : PoolAction.calls group (.event e) = false := rfl
          rw [SelectingPool.selections, List.countP_cons_of_neg (by simp [hcount])]
          exact ih _ (fullEntries_step hfull e) hne' hrest
      | invoke group' hostPort =>
          have ih := ih (p.step (.invoke group' hostPort)) hfull hne' hrest
          by_cases hcall : group' = group ∧ hostPort = 0
          · have hcount : PoolAction.calls group (.invoke group' hostPort) = true := by
              simp [PoolAction.calls, hcall]
            rw [SelectingPool.selections, List.countP_cons_of_pos hcount, List.replicate_succ, ih,
              if_pos hcall]
            obtain ⟨rfl, rfl⟩ := hcall
            rw [invoke_first hfull hne]
          · have hcount : ¬ PoolAction.calls group (.invoke group' hostPort) = true := by
              simpa [PoolAction.calls] using hcall
            rw [SelectingPool.selections, List.countP_cons_of_neg hcount, ih, if_neg hcall]

/-- How often an instance is chosen when all calls go to the first. -/
private theorem instanceUses_replicate (n i : ℕ) :
    instanceUses (List.replicate n (some { info := 0, connection := some 0 })) i =
      if i = 0 then n else 0 := by
  simp [instanceUses, List.countP_replicate, eq_comm]

/-- How often a connection is chosen when all calls go to the first. -/
private theorem connectionUses_replicate (n i j : ℕ) :
    connectionUses (List.replicate n (some { info := 0, connection := some 0 })) i j =
      if i = 0 ∧ j = 0 then n else 0 := by
  have hbeq : (some (Selection.mk 0 (some 0)) == some (Selection.mk i (some j))) =
      decide (i = 0 ∧ j = 0) := by
    rw [Bool.eq_iff_iff, beq_iff_eq, decide_eq_true_iff, Option.some.injEq, Selection.mk.injEq,
      Option.some.injEq, eq_comm, @eq_comm _ 0 j]
  simp only [connectionUses, List.count_replicate, hbeq, decide_eq_true_iff]

/-- **Calls that all go to the first** are distributed evenly exactly if there is at most one: an
instance has two connections. -/
private theorem evenlyDistributed_replicate_iff {entries : List ClientInfo} (hne : entries ≠ [])
    (hfull : ∀ info ∈ entries, info.clients.length = maxConnection) (n : ℕ) :
    EvenlyDistributed entries (List.replicate n (some { info := 0, connection := some 0 })) ↔
      n ≤ 1 := by
  obtain ⟨first, rest, rfl⟩ := List.exists_cons_of_ne_nil hne
  have hfirst : first.clients.length = 2 := hfull first List.mem_cons_self
  constructor
  · intro h
    have hdiff := h.connections 0 first rfl 0 (by omega) 1 (by omega)
    rw [connectionUses_replicate, connectionUses_replicate] at hdiff
    simpa using hdiff
  · intro hn
    refine ⟨fun i hi => ?_, fun i info hinfo j hj j' hj' => ?_⟩
    · rw [instanceUses_replicate, List.length_replicate]
      rcases Nat.eq_zero_or_pos n with rfl | hpos
      · left
        simp
      · obtain rfl : n = 1 := by omega
        by_cases hzero : i = 0
        · right
          rw [if_pos hzero, Nat.add_sub_cancel_left, Nat.div_self (by omega)]
        · left
          rw [if_neg hzero, Nat.div_eq_of_lt (by omega)]
    · rw [connectionUses_replicate, connectionUses_replicate]
      split <;> omega

/-- **When calls are distributed evenly.** For every run of registrations, closings and calls from a
new pool, every group that has an instance then, and everything that happens afterwards while the
group does not change: the calls for any instance of the group are distributed evenly over the
instances and over their connections exactly if there is at most one such call. -/
theorem evenlyDistributed_iff (contexts : Bytes → Option BoundContext) (sysContexts : Bytes → Bool)
    (before actions : List PoolAction) (group : Bytes) {p : SelectingPool}
    (hp : p = before.foldl SelectingPool.step
      { pool := { contexts := contexts, sysContexts := sysContexts } })
    (hne : p.pool.pool group ≠ []) (hkept : p.GroupKept group actions) :
    EvenlyDistributed (p.pool.pool group) (p.selections group actions) ↔
      actions.countP (PoolAction.calls group) ≤ 1 := by
  have hfull : p.pool.FullEntries := by
    rw [hp]
    exact length_clients_reachable (fun _ _ h => absurd h List.not_mem_nil) before
  rw [selections_eq_replicate actions p hfull hne hkept]
  exact evenlyDistributed_replicate_iff hne (hfull group) _

/-- Two instances of the group `g` register. -/
def twoInstances : List PoolAction :=
  [.event (.shake [103] 1 plainRegistration (fun _ => true) (fun _ => [])),
   .event (.shake [103] 2 plainRegistration (fun _ => true) (fun _ => []))]

/-- One call, behind a registration in another group. -/
def oneCall : List PoolAction :=
  [.event (.shake [104] 3 plainRegistration (fun _ => false) (fun _ => [])), .invoke [103] 0]

/-- The theorem at one call to two instances. -/
theorem evenlyDistributed_once :
    EvenlyDistributed ((twoInstances.foldl SelectingPool.step {}).pool.pool [103])
      ((twoInstances.foldl SelectingPool.step {}).selections [103] oneCall) := by
  have hne : (twoInstances.foldl SelectingPool.step {}).pool.pool [103] ≠ [] := by decide
  have hkept : (twoInstances.foldl SelectingPool.step {}).GroupKept [103] oneCall :=
    ⟨by decide, rfl, trivial⟩
  exact (evenlyDistributed_iff (fun _ => none) (fun _ => false) twoInstances oneCall [103] rfl hne
    hkept).mpr (by decide)

/-- **Two calls to two instances** both go to the first connection of the first. -/
theorem not_evenlyDistributed_twice :
    (twoInstances.foldl SelectingPool.step {}).selections [103]
        [.invoke [103] 0, .invoke [103] 0] =
          [some { info := 0, connection := some 0 }, some { info := 0, connection := some 0 }] ∧
      ¬ EvenlyDistributed ((twoInstances.foldl SelectingPool.step {}).pool.pool [103])
        ((twoInstances.foldl SelectingPool.step {}).selections [103]
          [.invoke [103] 0, .invoke [103] 0]) := by
  have hchoices : (twoInstances.foldl SelectingPool.step {}).selections [103]
      [.invoke [103] 0, .invoke [103] 0] =
        [some { info := 0, connection := some 0 }, some { info := 0, connection := some 0 }] := by
    decide
  refine ⟨hchoices, ?_⟩
  rw [hchoices]
  intro h
  exact absurd (h.instances 1 (by decide)) (by decide)

end Aquarius
