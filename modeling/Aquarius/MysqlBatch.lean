import Aquarius.Library.Decoder
import Mathlib.Logic.Function.Basic

/-!
# Batches of Statements

`mysql_module::async_multi_execute` (`database/mysql_module.cpp`) sends `BEGIN`, then every
statement of a list, and stops at the first that affects no row. Each of them is a coroutine of
its own (`mysql_io_service::transation`, `mysql_io_service::async_execute`,
`tbl/mysql_io_service.hpp`) that takes a connection from the pool and gives it back. `ROLLBACK`
and `COMMIT` are coroutines too, but `async_multi_execute` does not await them, so they send
nothing.

The model follows what of one batch the server holds: the statements that changed rows outside
of a transaction, and for every connection those that changed rows in the transaction open on
it. `transation` is given a reference to a temporary string that is gone when the coroutine
starts; the text it sends is taken to be the intended one.

## Main results

* `sees_execute`: a statement is seen on its own connection as soon as it has run.
* `asyncMultiExecute_atomic_iff`: **a batch is atomic** exactly when it is empty, when its first
  statement affects no row, or when it is a single statement that meets no open transaction.
-/

open Decoding

namespace Aquarius

/-! ### The server and the pool -/

/-- What the server holds of a batch. -/
structure BatchState where
  inTransaction : ℕ → Bool
  pending : ℕ → List Bytes
  committed : List Bytes

/-- The texts that `transation` sends. -/
inductive TransactionOption where
  | begin
  | commit
  | rollback
  deriving DecidableEq, Repr

namespace BatchState

variable (s : BatchState)

/-- What the server does at one of the three texts; a `BEGIN` commits what is open. -/
def transact (conn : ℕ) : TransactionOption → BatchState
  | .begin =>
      { inTransaction := Function.update s.inTransaction conn true
        pending := Function.update s.pending conn []
        committed := s.committed ++ s.pending conn }
  | .commit =>
      { inTransaction := Function.update s.inTransaction conn false
        pending := Function.update s.pending conn []
        committed := s.committed ++ s.pending conn }
  | .rollback =>
      { s with
        inTransaction := Function.update s.inTransaction conn false
        pending := Function.update s.pending conn [] }

/-- What the server does at a statement that changes rows. -/
def execute (conn : ℕ) (sql : Bytes) : BatchState :=
  if s.inTransaction conn then
    { s with pending := Function.update s.pending conn (s.pending conn ++ [sql]) }
  else { s with committed := s.committed ++ [sql] }

/-- A connection goes back to the pool, where its session is reset, or is not. -/
def giveBack (resets : Bool) (conn : ℕ) : BatchState :=
  if resets then s.transact conn .rollback else s

/-- The statements of the batch whose changes can be seen on a connection. -/
def sees (conn : ℕ) : List Bytes := s.committed ++ s.pending conn

end BatchState

/-- A pool of connections: whether sessions are reset when a connection comes back, and on which
connections a transaction is open. -/
structure ConnectionPool where
  resets : Bool
  inTransaction : ℕ → Bool
  clean : resets = true → ∀ conn, inTransaction conn = false

/-- The batch has not begun. -/
def ConnectionPool.state (pool : ConnectionPool) : BatchState where
  inTransaction := pool.inTransaction
  pending := fun _ => []
  committed := []

/-! ### The coroutines -/

/-- How sending a text goes: the connection that `async_get_connection` hands out and the number
of rows that the server answers with, each missing after an error. -/
structure SqlSending where
  handed : Option ℕ
  answer : Option ℕ
  deriving DecidableEq, Repr

/-- The connection on which the text takes effect. -/
def SqlSending.on (x : SqlSending) : Option ℕ := if x.answer.isSome then x.handed else none

/-- `mysql_io_service::transation`. The string its parameter refers to is gone when the coroutine
runs; the text sent is taken to be the intended one, and `beginning` says what it comes to. -/
def transation (resets : Bool) (option : TransactionOption) (x : SqlSending) (s : BatchState) :
    BatchState :=
  match x.handed, x.answer with
  | none, _ => s
  | some conn, none => s.giveBack resets conn
  | some conn, some _ => (s.transact conn option).giveBack resets conn

/-- `mysql_io_service::async_execute`, called by `mysql_module::async_execute`. -/
def asyncExecute (resets : Bool) (sql : Bytes) (x : SqlSending) (s : BatchState) :
    ℕ × BatchState :=
  match x.handed, x.answer with
  | none, _ => (0, s)
  | some conn, none => (0, s.giveBack resets conn)
  | some conn, some affected =>
      (affected, (if affected = 0 then s else s.execute conn sql).giveBack resets conn)

/-- An `asio::awaitable` that is dropped before it is awaited runs nothing. -/
def notAwaited (_ : BatchState → BatchState) (s : BatchState) : BatchState := s

/-- What comes of a batch: the states of the server between its statements, the last of them,
and the result. -/
structure BatchRun where
  moments : List BatchState
  final : BatchState
  result : ℕ

/-- The loop of `async_multi_execute`; `size` is that of the whole list, and `x` how sending
`ROLLBACK` or `COMMIT` would go. -/
def executeLoop (resets : Bool) (size : ℕ) (x : SqlSending) :
    BatchState → List (Bytes × SqlSending) → BatchRun
  | s, [] =>
      let s' := notAwaited (transation resets .commit x) s
      { moments := [s'], final := s', result := size }
  | s, (sql, sending) :: rest =>
      let (result, s') := asyncExecute resets sql sending s
      if result = 0 then
        let s'' := notAwaited (transation resets .rollback x) s'
        { moments := [s, s''], final := s'', result := result }
      else
        let run := executeLoop resets size x s' rest
        { run with moments := s :: run.moments }

/-- `mysql_module::async_multi_execute`, given how sending each text goes. -/
def asyncMultiExecute (pool : ConnectionPool) (beginning : SqlSending)
    (sqls : List (Bytes × SqlSending)) (x : SqlSending) : BatchRun :=
  executeLoop pool.resets sqls.length x
    (transation pool.resets .begin beginning pool.state) sqls

/-- The number of rows that `async_execute` returns. -/
def SqlSending.affected (x : SqlSending) : ℕ := if x.handed.isSome then x.answer.getD 0 else 0

/-! ### Atomicity -/

/-- **Atomicity of a batch.** In the end all statements are committed and counted, or one
affected no row and nothing is left of the others; and at no moment can a part of them be seen
on any connection. -/
structure Atomic (sqls : List (Bytes × SqlSending)) (run : BatchRun) : Prop where
  settled :
    (run.result = sqls.length ∧ run.final.committed = sqls.map Prod.fst ∧
      ∀ conn, run.final.pending conn = []) ∨
    ((∃ x ∈ sqls, x.2.affected = 0) ∧ ∀ conn, run.final.sees conn = [])
  unseen : ∀ s ∈ run.moments, ∀ conn, s.sees conn = [] ∨ s.sees conn = sqls.map Prod.fst

/-! ### One text at a time -/

section Texts

variable {resets : Bool} {s : BatchState}

/-- Nothing is seen where nothing is committed or pending. -/
theorem sees_eq_nil_iff {conn : ℕ} :
    s.sees conn = [] ↔ s.committed = [] ∧ s.pending conn = [] := List.append_eq_nil_iff

/-- Where nothing of the batch is seen, none of the three texts brings anything to light. -/
theorem sees_transact (hs : ∀ conn, s.sees conn = []) (c : ℕ) (option : TransactionOption)
    (conn : ℕ) : (s.transact c option).sees conn = [] := by
  have hnil : ∀ conn, s.committed = [] ∧ s.pending conn = [] :=
    fun conn => sees_eq_nil_iff.mp (hs conn)
  cases option <;>
    simp [BatchState.transact, BatchState.sees, Function.update_apply, hnil conn, hnil c]

/-- Nor does giving a connection back. -/
theorem sees_giveBack (hs : ∀ conn, s.sees conn = []) (c conn : ℕ) :
    (s.giveBack resets c).sees conn = [] := by
  rw [BatchState.giveBack]
  split
  · exact sees_transact hs c .rollback conn
  · exact hs conn

/-- After `BEGIN` nothing of the batch is there yet. -/
theorem sees_begin (pool : ConnectionPool) (x : SqlSending) (conn : ℕ) :
    (transation pool.resets .begin x pool.state).sees conn = [] := by
  have hs : ∀ conn, pool.state.sees conn = [] := fun _ => rfl
  rw [transation]
  split
  · exact hs conn
  · exact sees_giveBack hs _ conn
  · exact sees_giveBack (sees_transact hs _ .begin) _ conn

/-- After `BEGIN` a transaction is open on a connection where one was open before, and on the
one that `BEGIN` took effect on, unless its session has been reset. -/
theorem inTransaction_begin (pool : ConnectionPool) (x : SqlSending) (conn : ℕ) :
    (transation pool.resets .begin x pool.state).inTransaction conn = false ↔
      pool.inTransaction conn = false ∧ (pool.resets = true ∨ x.on ≠ some conn) := by
  obtain ⟨handed, answer⟩ := x
  cases hresets : pool.resets with
  | true =>
      -- every session is reset, so no transaction was open and none is
      have hclean := pool.clean hresets
      cases handed <;> cases answer <;>
        simp [transation, BatchState.giveBack, BatchState.transact, ConnectionPool.state,
          Function.update_apply, hclean]
  | false =>
      cases handed <;> cases answer <;>
        simp [transation, BatchState.giveBack, BatchState.transact, ConnectionPool.state,
          Function.update_apply, SqlSending.on]
      rename_i c n
      by_cases h : conn = c
      · simp [h]
      · simp [h, Ne.symm h]

/-- A statement that affects no row stops the loop and shows nothing. -/
theorem asyncExecute_of_affected_eq_zero (resets : Bool) {x : SqlSending} (hx : x.affected = 0) (sql : Bytes)
    (hs : ∀ conn, s.sees conn = []) :
    (asyncExecute resets sql x s).1 = 0 ∧
      ∀ conn, (asyncExecute resets sql x s).2.sees conn = [] := by
  obtain ⟨handed, answer⟩ := x
  cases handed with
  | none => exact ⟨rfl, hs⟩
  | some c =>
      cases answer with
      | none => exact ⟨rfl, sees_giveBack hs c⟩
      | some affected =>
          obtain rfl : affected = 0 := hx
          exact ⟨rfl, sees_giveBack hs c⟩

/-- A statement that affects rows is executed on the connection that is handed out. -/
theorem asyncExecute_of_affected_ne_zero (resets : Bool) {x : SqlSending} (hx : x.affected ≠ 0) (sql : Bytes)
    (s : BatchState) :
    ∃ conn, x.handed = some conn ∧
      asyncExecute resets sql x s =
        (x.affected, (s.execute conn sql).giveBack resets conn) := by
  obtain ⟨handed, answer⟩ := x
  cases handed with
  | none => exact absurd rfl hx
  | some conn =>
      cases answer with
      | none => exact absurd rfl hx
      | some affected =>
          have haffected : affected ≠ 0 := hx
          exact ⟨conn, rfl, by simp [asyncExecute, SqlSending.affected, haffected]⟩

/-- **A statement is seen** on its own connection as soon as it has run, in a transaction or
not. -/
theorem sees_execute {conn : ℕ} (sql : Bytes) (hs : ∀ conn, s.sees conn = [])
    (hclean : resets = true → s.inTransaction conn = false) :
    ((s.execute conn sql).giveBack resets conn).sees conn = [sql] := by
  obtain ⟨hcommitted, hpending⟩ := sees_eq_nil_iff.mp (hs conn)
  cases resets with
  | true => simp [BatchState.giveBack, BatchState.execute, BatchState.transact,
      BatchState.sees, hclean, hcommitted]
  | false =>
      rw [BatchState.giveBack, if_neg Bool.false_ne_true, BatchState.execute]
      split <;> simp [BatchState.sees, hcommitted, hpending]

/-- Outside of a transaction it is committed. -/
theorem committed_execute (resets : Bool) {conn : ℕ} (sql : Bytes) (hs : ∀ conn, s.sees conn = [])
    (hout : s.inTransaction conn = false) :
    ((s.execute conn sql).giveBack resets conn).committed = [sql] ∧
      ∀ c, ((s.execute conn sql).giveBack resets conn).pending c = [] := by
  have hcommitted : s.committed = [] := (sees_eq_nil_iff.mp (hs conn)).1
  have hpending : ∀ c, s.pending c = [] := fun c => (sees_eq_nil_iff.mp (hs c)).2
  cases resets <;>
    simp [BatchState.giveBack, BatchState.execute, BatchState.transact, hout, hcommitted,
      hpending, Function.update_apply]

/-- In a transaction it is left pending, for nothing commits it. -/
theorem pending_execute {conn : ℕ} (sql : Bytes) (hs : ∀ conn, s.sees conn = [])
    (hin : s.inTransaction conn = true) :
    ((s.execute conn sql).giveBack false conn).pending conn = [sql] := by
  obtain ⟨-, hpending⟩ := sees_eq_nil_iff.mp (hs conn)
  simp [BatchState.giveBack, BatchState.execute, hin, hpending]

end Texts

/-! ### Whole batches -/

section Batches

variable {resets : Bool} {size : ℕ} {x sending : SqlSending} {s : BatchState} {sql : Bytes}
  {sqls rest : List (Bytes × SqlSending)}

/-- The loop starts at a moment that can be observed. -/
theorem mem_moments_executeLoop : s ∈ (executeLoop resets size x s sqls).moments := by
  cases sqls with
  | nil => exact List.mem_singleton_self s
  | cons head rest =>
      rw [executeLoop]
      split
      split <;> simp

/-- An empty batch is atomic. -/
theorem atomic_nil (hs : ∀ conn, s.sees conn = []) : Atomic [] (executeLoop resets 0 x s []) where
  settled := .inl ⟨rfl, (sees_eq_nil_iff.mp (hs 0)).1,
    fun conn => (sees_eq_nil_iff.mp (hs conn)).2⟩
  unseen := by
    intro t ht conn
    obtain rfl := List.mem_singleton.mp ht
    exact .inl (hs conn)

/-- A batch whose first statement affects no row is atomic: nothing has been done. -/
theorem atomic_of_affected_eq_zero (hs : ∀ conn, s.sees conn = []) (haff : sending.affected = 0) :
    Atomic ((sql, sending) :: rest) (executeLoop resets size x s ((sql, sending) :: rest)) := by
  obtain ⟨hzero, hsees⟩ := asyncExecute_of_affected_eq_zero resets haff sql hs
  rw [executeLoop]
  simp only [hzero, if_true]
  constructor
  · exact .inr ⟨⟨_, List.mem_cons_self .., haff⟩, hsees⟩
  · intro t ht conn
    rw [List.mem_pair] at ht
    rcases ht with rfl | rfl
    · exact .inl (hs conn)
    · exact .inl (hsees conn)

/-- A batch of a single statement is atomic exactly when no transaction is open on its
connection. -/
theorem atomic_single_iff {conn : ℕ} (hs : ∀ conn, s.sees conn = [])
    (hclean : resets = true → s.inTransaction conn = false) (haff : sending.affected ≠ 0)
    (hconn : sending.handed = some conn) :
    Atomic [(sql, sending)] (executeLoop resets 1 x s [(sql, sending)]) ↔
      s.inTransaction conn = false := by
  obtain ⟨conn', hconn', hexec⟩ := asyncExecute_of_affected_ne_zero resets haff sql s
  obtain rfl : conn = conn' := Option.some.inj (hconn.symm.trans hconn')
  rw [executeLoop]
  simp only [hexec, if_neg haff, executeLoop, notAwaited]
  constructor
  · intro hatomic
    by_contra hin
    rw [Bool.not_eq_false] at hin
    obtain rfl : resets = false := by
      by_contra h
      rw [hclean (Bool.not_eq_false _ ▸ h)] at hin
      exact Bool.false_ne_true hin
    have hpending := pending_execute sql hs hin
    rcases hatomic.settled with ⟨-, -, hnil⟩ | ⟨⟨y, hy, hzero⟩, -⟩
    · rw [hnil conn] at hpending
      exact List.cons_ne_nil _ _ hpending.symm
    · obtain rfl := List.mem_singleton.mp hy
      exact haff hzero
  · intro hout
    obtain ⟨hcommitted, hpending⟩ := committed_execute resets sql hs hout
    constructor
    · exact .inl ⟨rfl, hcommitted, hpending⟩
    · intro t ht c
      rw [List.mem_pair] at ht
      rcases ht with rfl | rfl
      · exact .inl (hs c)
      · refine .inr ?_
        rw [BatchState.sees, hcommitted, hpending]
        rfl

/-- A batch of several statements whose first one affects rows is not atomic: a part of it is
seen on the connection of the first. -/
theorem not_atomic_of_affected_ne_zero (hs : ∀ conn, s.sees conn = [])
    (hclean : resets = true → ∀ conn, s.inTransaction conn = false)
    (haff : sending.affected ≠ 0) (hrest : rest ≠ []) :
    ¬ Atomic ((sql, sending) :: rest) (executeLoop resets size x s ((sql, sending) :: rest)) := by
  intro hatomic
  obtain ⟨conn, -, hexec⟩ := asyncExecute_of_affected_ne_zero resets haff sql s
  have hseen := sees_execute sql hs fun h => hclean h conn
  have hmem : (s.execute conn sql).giveBack resets conn ∈
      (executeLoop resets size x s ((sql, sending) :: rest)).moments := by
    rw [executeLoop]
    simp only [hexec, if_neg haff]
    exact List.mem_cons_of_mem _ mem_moments_executeLoop
  rcases hatomic.unseen _ hmem conn with hnone | hall
  · rw [hseen] at hnone
    exact List.cons_ne_nil _ _ hnone
  · rw [hseen, List.map_cons, List.cons.injEq] at hall
    exact hrest (List.map_eq_nil_iff.mp hall.2.symm)

end Batches

/-- **A batch is atomic** exactly when it is empty, when its first statement affects no row, or
when it is a single statement whose connection has no transaction open: none from before, and
not the one that `BEGIN` has just opened and no reset has ended. The text of `BEGIN`, which
`transation` reads from a string that is gone, is taken to be the intended one; that it fails is one
of the outcomes `beginning`. -/
theorem asyncMultiExecute_atomic_iff (pool : ConnectionPool) (beginning : SqlSending)
    (sqls : List (Bytes × SqlSending)) (x : SqlSending) :
    Atomic sqls (asyncMultiExecute pool beginning sqls x) ↔
      sqls = [] ∨
      (∃ sql sending rest, sqls = (sql, sending) :: rest ∧ sending.affected = 0) ∨
      ∃ sql sending conn, sqls = [(sql, sending)] ∧ sending.handed = some conn ∧
        pool.inTransaction conn = false ∧
        (pool.resets = true ∨ beginning.on ≠ some conn) := by
  have hs := sees_begin pool beginning
  have hclean : pool.resets = true → ∀ conn,
      (transation pool.resets .begin beginning pool.state).inTransaction conn = false :=
    fun h conn => (inTransaction_begin pool beginning conn).mpr ⟨pool.clean h conn, .inl h⟩
  rw [asyncMultiExecute]
  cases sqls with
  | nil => exact iff_of_true (atomic_nil hs) (.inl rfl)
  | cons head rest =>
      obtain ⟨sql, sending⟩ := head
      by_cases haff : sending.affected = 0
      · exact iff_of_true (atomic_of_affected_eq_zero hs haff)
          (.inr (.inl ⟨sql, sending, rest, rfl, haff⟩))
      obtain ⟨conn, hconn, -⟩ := asyncExecute_of_affected_ne_zero pool.resets haff sql
        pool.state
      cases rest with
      | nil =>
          rw [List.length_singleton,
            atomic_single_iff hs (fun h => hclean h conn) haff hconn, inTransaction_begin]
          constructor
          · exact fun h => .inr (.inr ⟨sql, sending, conn, rfl, hconn, h⟩)
          · rintro (hnil | ⟨sql', sending', rest', heq, hzero⟩ |
              ⟨sql', sending', conn', heq, hconn', h⟩)
            · exact absurd hnil (List.cons_ne_nil _ _)
            · cases heq
              exact absurd hzero haff
            · cases heq
              obtain rfl : conn = conn' := Option.some.inj (hconn.symm.trans hconn')
              exact h
      | cons next rest =>
          refine iff_of_false
            (not_atomic_of_affected_ne_zero hs hclean haff (List.cons_ne_nil _ _)) ?_
          rintro (hnil | ⟨sql', sending', rest', heq, hzero⟩ | ⟨sql', sending', conn', heq, -⟩)
          · exact absurd hnil (List.cons_ne_nil _ _)
          · cases heq
            exact absurd hzero haff
          · cases heq

/-- A pool that resets its sessions, and the first statement of a batch of two has changed a row
when the second one affects none: what it changed stays. -/
theorem not_atomic_second_fails :
    ¬ Atomic [([97], ⟨some 1, some 1⟩), ([98], ⟨some 2, some 0⟩)]
      (asyncMultiExecute ⟨true, fun _ => false, fun _ _ => rfl⟩ ⟨some 0, some 0⟩
        [([97], ⟨some 1, some 1⟩), ([98], ⟨some 2, some 0⟩)] ⟨some 0, some 0⟩) := by
  intro hatomic
  rcases hatomic.settled with ⟨hresult, -⟩ | ⟨-, hsees⟩
  · exact absurd hresult (by simp [asyncMultiExecute, executeLoop, asyncExecute])
  · exact absurd (hsees 0) (List.cons_ne_nil [97] [])

end Aquarius
