import Aquarius.Library.Transition
import Aquarius.ResultRows
import Aquarius.TblStatements
import Mathlib.Logic.Function.Basic

/-!
# The Accounts of the Login Service

`auth_module` (`login/auth_module.cpp`) answers `check_password` from the map `accounts_`, which
`load_account` fills from the account table and the other operations are to keep in step with
it: each sends a statement to the database service and, when that affects rows, changes the map.

They do not keep it in step. `sql_remove` sends an `insert`, so a removed account is added to the
table once more, without a password. `change_password` has no `co_return` behind its update, and
the update, without a `where`, has `and` in the place of the commas (`tbl/update_view.hpp`), so it
assigns a truth value to `id` and leaves every password as it is. `load_account` is given one
account however many there are (`Aquarius.ResultRows`), and `create_account` changes the password
in the map of an account that the table has twice from then on.

The server is a parameter: the id it stores for a row that is inserted with id 0, and what it
makes of a text that is not one `insert` of an account (`Sql.readInsert`) with id 0 and two string
literals.

## Main results

* `mirrors_loadAccount_iff`: when `load_account` gets the table right.
* `mirrors_authStep_iff`: when an operation keeps the map in step.
* `mirrors_run`: **the map mirrors the table** in every state of every run all of whose
  operations do.
-/

open Decoding Transition

namespace Aquarius

/-! ### Accounts and statements -/

/-- `login::account` -/
structure Account where
  id : BitVec 64
  acc : Bytes
  password : Bytes
  deriving DecidableEq, Repr

/-- The members of `account`. -/
def accountMembers : List Member :=
  [⟨textBytes "id", .integer false .w64⟩, ⟨textBytes "acc", .string⟩,
    ⟨textBytes "password", .string⟩]

/-- An account, member by member. -/
def Account.record (a : Account) : Record accountMembers := (a.id, a.acc, a.password, ())

/-- The account with given members. -/
def Account.ofRecord : Record accountMembers → Account
  | (id, acc, password, _) => ⟨id, acc, password⟩

/-- `insert_v(acc)` -/
def insertAccount (a : Account) : Bytes := insertView (textBytes "account") accountMembers a.record

/-- `update_v(acc)` -/
def updateAccount (a : Account) : Bytes := updateView (textBytes "account") accountMembers a.record

/-! ### The database -/

/-- What the server does that the texts do not say. -/
structure SqlServer where
  nextId : List Account → BitVec 64
  other : Bytes → List Account → List Account

/-- The strings of an `insert` of an account with id 0. -/
def insertedAccount (sql : Bytes) : Option (Bytes × Bytes) :=
  match Sql.readInsert sql with
  | some (table, columns, [.integer id, .text acc, .text password]) =>
      if table = textBytes "account" ∧ columns = accountMembers.map Member.name ∧ id = 0 then
        some (acc, password)
      else none
  | _ => none

/-- The account table after a statement that affects rows. -/
def SqlServer.execute (server : SqlServer) (sql : Bytes) (table : List Account) : List Account :=
  match insertedAccount sql with
  | some (acc, password) => table ++ [⟨server.nextId table, acc, password⟩]
  | none => server.other sql table

/-- The account table after a statement, given the number of rows it affects. -/
def SqlServer.answer (server : SqlServer) (sql : Bytes) (affected : ℕ) (table : List Account) :
    List Account :=
  if affected = 0 then table else server.execute sql table

/-! ### The module -/

/-- `login::error` -/
inductive LoginError where
  | success
  | notExistAccount
  | incorrectPasswd
  | notExistInPool
  deriving DecidableEq, Repr

/-- `accounts_`, by the passwords, with the account table; and whether an operation has run off
its end. -/
structure AuthState where
  accounts : Bytes → Option Bytes
  table : List Account
  undefined : Bool

namespace AuthState

variable (server : SqlServer) (s : AuthState)

/-- `auth_module::fill_account` -/
def fillAccount (accounts : Bytes → Option Bytes) (a : Account) : Bytes → Option Bytes :=
  Function.update accounts a.acc (some a.password)

/-- `auth_module::load_account`, of a module that has no accounts yet. -/
def loadAccount (table : List Account) : AuthState :=
  let texts := asyncQueryOnly (some (table.map fun a => heldRow accountMembers a.record))
  match query accountMembers texts with
  | none => { accounts := fun _ => none, table := table, undefined := true }
  | some res =>
      { accounts := (res.map Account.ofRecord).foldl fillAccount fun _ => none
        table := table
        undefined := false }

/-- `auth_module::check_password` -/
def checkPassword (username password : Bytes) : LoginError :=
  match s.accounts username with
  | none => .notExistAccount
  | some stored => if stored = password then .success else .incorrectPasswd

/-- `auth_module::create_account`, through `sql_insert` -/
def createAccount (username password : Bytes) (affected : ℕ) : LoginError × AuthState :=
  let acc : Account := ⟨0, username, password⟩
  (.success,
    { s with
      table := server.answer (insertAccount acc) affected s.table
      accounts := if affected ≠ 0 then fillAccount s.accounts acc else s.accounts })

/-- `auth_module::remove_account`, through `sql_remove` -/
def removeAccount (username : Bytes) (affected : ℕ) : LoginError × AuthState :=
  let acc : Account := ⟨0, username, []⟩
  (.success,
    { s with
      table := server.answer (insertAccount acc) affected s.table
      accounts := if affected ≠ 0 then Function.update s.accounts username none else s.accounts })

/-- `auth_module::change_password`, through `sql_update`; nothing is returned behind the
update. The account in the map has the id zero that `fill_account` leaves it with. -/
def changePassword (username oldPasswd newPasswd newPasswdSec : Bytes) (affected : ℕ) :
    Option LoginError × AuthState :=
  if newPasswd ≠ newPasswdSec then (some .notExistAccount, s)
  else
    match s.accounts username with
    | none => (some .notExistAccount, s)
    | some password =>
        if password ≠ oldPasswd then (some .incorrectPasswd, s)
        else
          let acc : Account := ⟨0, username, newPasswd⟩
          let kept := if affected = 0 then oldPasswd else newPasswd
          (none,
            { s with
              table := server.answer (updateAccount acc) affected s.table
              accounts := Function.update s.accounts username (some kept) })

end AuthState

/-- The operations, with the number of affected rows that the database answers with. -/
inductive AuthEvent where
  | createAccount (username password : Bytes) (affected : ℕ)
  | removeAccount (username : Bytes) (affected : ℕ)
  | changePassword (username oldPasswd newPasswd newPasswdSec : Bytes) (affected : ℕ)
  deriving DecidableEq, Repr

/-- One operation; where it returns nothing, the behaviour is undefined from there on. -/
def authStep (server : SqlServer) (s : AuthState) : AuthEvent → Option AuthState
  | .createAccount username password affected =>
      some (s.createAccount server username password affected).2
  | .removeAccount username affected => some (s.removeAccount server username affected).2
  | .changePassword username oldPasswd newPasswd newPasswdSec affected =>
      let (returned, s') :=
        s.changePassword server username oldPasswd newPasswd newPasswdSec affected
      some { s' with undefined := s.undefined || returned.isNone }

/-- **The map mirrors the table**: it holds the passwords that the table has, and no others. -/
def Mirrors (s : AuthState) : Prop :=
  s.undefined = false ∧
    ∀ username password, s.accounts username = some password ↔
      ∃ a ∈ s.table, a.acc = username ∧ a.password = password

/-- A table that `load_account` gets right: all its rows agree, and have no blanks. -/
def Loadable : List Account → Prop
  | [] => True
  | a :: rest => BlankFree a.acc ∧ BlankFree a.password ∧
      ∀ b ∈ rest, b.acc = a.acc ∧ b.password = a.password

/-- The operations that keep the map in step: an account is created under a name that is not in
use, or not with another password, its strings mean nothing else between quotes, or the database
refuses; it refuses to remove; and a check stops the change of a password. -/
def InStep (s : AuthState) : AuthEvent → Prop
  | .createAccount username password affected =>
      affected = 0 ∨ Plain username ∧ Plain password ∧
        ∀ stored, s.accounts username = some stored → stored = password
  | .removeAccount _ affected => affected = 0
  | .changePassword username oldPasswd newPasswd newPasswdSec _ =>
      newPasswd ≠ newPasswdSec ∨ s.accounts username ≠ some oldPasswd

/-! ### Statements -/

/-- The server reads the two strings, when they are plain. -/
theorem insertedAccount_insertAccount {username password : Bytes} (husername : Plain username)
    (hpassword : Plain password) :
    insertedAccount (insertAccount ⟨0, username, password⟩) = some (username, password) := by
  have hreadable : ∀ f ∈ fields accountMembers (Account.record ⟨0, username, password⟩),
      f.Readable := by
    intro f hf
    simp only [fields, accountMembers, Account.record, List.mem_cons, List.not_mem_nil,
      or_false] at hf
    rcases hf with rfl | rfl | rfl
    · exact IntWidth.noConfusion
    · exact verbatim_of_plain husername
    · exact verbatim_of_plain hpassword
  have hname : Sql.Identifier (textBytes "account") := by decide
  have hread := readInsert_insertView_of_readable hname (by decide) hreadable
  rw [insertedAccount, insertAccount, hread]
  rfl

/-- **A plain account is inserted** when the database says that it is. -/
theorem answer_insertAccount {username password : Bytes} (husername : Plain username)
    (hpassword : Plain password) (server : SqlServer) {affected : ℕ} (haff : affected ≠ 0)
    (table : List Account) :
    server.answer (insertAccount ⟨0, username, password⟩) affected table =
      table ++ [⟨server.nextId table, username, password⟩] := by
  rw [SqlServer.answer, if_neg haff, SqlServer.execute,
    insertedAccount_insertAccount husername hpassword]

/-! ### Loading -/

/-- No account is loaded from an empty table. -/
theorem loadAccount_nil : AuthState.loadAccount [] = ⟨fun _ => none, [], false⟩ := rfl

/-- One account is loaded from any other table: the first, up to its blanks. -/
theorem loadAccount_cons (a : Account) (rest : List Account) :
    AuthState.loadAccount (a :: rest) =
      { accounts := Function.update (fun _ => none) (extractWord a.acc)
          (some (extractWord a.password))
        table := a :: rest
        undefined := false } := by
  have hmembers : accountMembers ≠ [] := List.cons_ne_nil _ _
  have hquery := query_asyncQueryOnly_cons hmembers a.record (rest.map Account.record)
  rw [← List.map_cons, List.map_map, Function.comp_def] at hquery
  rw [AuthState.loadAccount, hquery]
  rfl

/-- **When `load_account` gets the table right**: there is no account, or all rows are the same
account without blanks. -/
theorem mirrors_loadAccount_iff (table : List Account) :
    Mirrors (AuthState.loadAccount table) ↔ Loadable table := by
  cases table with
  | nil => simp [Mirrors, Loadable, loadAccount_nil]
  | cons a rest =>
      rw [loadAccount_cons, Loadable, BlankFree, BlankFree, ← extractWord_eq_self_iff,
        ← extractWord_eq_self_iff]
      constructor
      · rintro ⟨-, h⟩
        have hrow : ∀ b ∈ a :: rest,
            b.acc = extractWord a.acc ∧ b.password = extractWord a.password := by
          intro b hb
          have hb' := (h b.acc b.password).mpr ⟨b, hb, rfl, rfl⟩
          simp only [Function.update_apply] at hb'
          split at hb'
          · rename_i hacc
            exact ⟨hacc, (Option.some.inj hb').symm⟩
          · cases hb'
        obtain ⟨hacc, hpassword⟩ := hrow a (List.mem_cons_self ..)
        refine ⟨hacc.symm, hpassword.symm, fun b hb => ?_⟩
        rw [hacc, hpassword]
        exact hrow b (List.mem_cons_of_mem _ hb)
      · rintro ⟨hacc, hpassword, hrest⟩
        rw [hacc, hpassword]
        have hrow : ∀ b ∈ a :: rest, b.acc = a.acc ∧ b.password = a.password :=
          List.forall_mem_cons.mpr ⟨⟨rfl, rfl⟩, hrest⟩
        refine ⟨rfl, fun username password => ?_⟩
        simp only [Function.update_apply]
        constructor
        · intro h
          split at h
          · rename_i husername
            exact ⟨a, List.mem_cons_self .., husername.symm, Option.some.inj h⟩
          · cases h
        · rintro ⟨b, hb, rfl, rfl⟩
          obtain ⟨hbacc, hbpassword⟩ := hrow b hb
          rw [if_pos hbacc, hbpassword]

/-! ### Operations -/

section Operations

variable {server : SqlServer} {s s' : AuthState}

/-- An account that the database refuses to create changes nothing. -/
theorem createAccount_refused (server : SqlServer) (s : AuthState) (username password : Bytes) :
    (s.createAccount server username password 0).2 = s := rfl

/-- Nor does one that it refuses to remove. -/
theorem removeAccount_refused (server : SqlServer) (s : AuthState) (username : Bytes) :
    (s.removeAccount server username 0).2 = s := rfl

/-- **Creating an account** keeps the map in step unless its name is in use with another
password. -/
theorem mirrors_createAccount_iff (hs : Mirrors s) {username password : Bytes}
    (husername : Plain username) (hpassword : Plain password) {affected : ℕ}
    (haff : affected ≠ 0) :
    Mirrors (s.createAccount server username password affected).2 ↔
      ∀ stored, s.accounts username = some stored → stored = password := by
  simp only [AuthState.createAccount, AuthState.fillAccount, Mirrors, if_pos haff,
    answer_insertAccount husername hpassword server haff, Function.update_apply,
    List.mem_append, List.mem_singleton]
  constructor
  · rintro ⟨-, h⟩ stored hstored
    obtain ⟨a, ha, hacc, hapassword⟩ := (hs.2 username stored).mp hstored
    have hnew := (h username stored).mpr ⟨a, .inl ha, hacc, hapassword⟩
    rw [if_pos rfl] at hnew
    exact (Option.some.inj hnew).symm
  · intro h
    refine ⟨hs.1, fun name word => ?_⟩
    by_cases hname : name = username
    · subst hname
      rw [if_pos rfl, Option.some_inj]
      constructor
      · rintro rfl
        exact ⟨_, .inr rfl, rfl, rfl⟩
      · rintro ⟨a, ha | rfl, hacc, rfl⟩
        · exact (h a.password ((hs.2 name a.password).mpr ⟨a, ha, hacc, rfl⟩)).symm
        · rfl
    · rw [if_neg hname, hs.2]
      constructor
      · rintro ⟨a, ha, hacc, hapassword⟩
        exact ⟨a, .inl ha, hacc, hapassword⟩
      · rintro ⟨a, ha | rfl, hacc, hapassword⟩
        · exact ⟨a, ha, hacc, hapassword⟩
        · exact absurd hacc.symm hname

/-- **Removing an account** adds it to the table once more. -/
theorem not_mirrors_removeAccount {username : Bytes} (husername : Plain username) {affected : ℕ}
    (haff : affected ≠ 0) : ¬ Mirrors (s.removeAccount server username affected).2 := by
  have hempty : Plain [] := by simp [Plain]
  simp only [AuthState.removeAccount, Mirrors, if_pos haff,
    answer_insertAccount husername hempty server haff, Function.update_apply,
    List.mem_append, List.mem_singleton]
  rintro ⟨-, h⟩
  have hnew := (h username []).mpr ⟨_, .inr rfl, rfl, rfl⟩
  rw [if_pos rfl] at hnew
  cases hnew

/-- A change of a password that a check stops changes nothing, and returns. -/
theorem changePassword_stopped {username oldPasswd newPasswd newPasswdSec : Bytes}
    (h : newPasswd ≠ newPasswdSec ∨ s.accounts username ≠ some oldPasswd) (affected : ℕ) :
    ∃ e, s.changePassword server username oldPasswd newPasswd newPasswdSec affected =
      (some e, s) := by
  rw [AuthState.changePassword]
  split
  · exact ⟨_, rfl⟩
  · rename_i hsame
    split
    · exact ⟨_, rfl⟩
    · rename_i password hfound
      have hold : password ≠ oldPasswd := by
        rintro rfl
        exact h.elim hsame fun hne => hne hfound
      rw [if_pos hold]
      exact ⟨_, rfl⟩

/-- A change that no check stops returns nothing. -/
theorem changePassword_unreturned {username oldPasswd newPasswd newPasswdSec : Bytes}
    (hsame : newPasswd = newPasswdSec) (hfound : s.accounts username = some oldPasswd)
    (affected : ℕ) :
    ∃ t, s.changePassword server username oldPasswd newPasswd newPasswdSec affected =
      (none, t) := by
  simp [AuthState.changePassword, hsame, hfound]

/-- **One operation** that keeps the map in step does. -/
theorem mirrors_authStep {e : AuthEvent} (hs : Mirrors s) (he : InStep s e)
    (hstep : authStep server s e = some s') : Mirrors s' := by
  cases e with
  | createAccount username password affected =>
      obtain rfl := Option.some.inj hstep
      rcases he with rfl | ⟨husername, hpassword, hstored⟩
      · rwa [createAccount_refused]
      by_cases haff : affected = 0
      · rwa [haff, createAccount_refused]
      · exact (mirrors_createAccount_iff hs husername hpassword haff).mpr hstored
  | removeAccount username affected =>
      obtain rfl := Option.some.inj hstep
      obtain rfl : affected = 0 := he
      rwa [removeAccount_refused]
  | changePassword username oldPasswd newPasswd newPasswdSec affected =>
      obtain ⟨err, herr⟩ := changePassword_stopped he affected
      rw [authStep, herr] at hstep
      obtain rfl := Option.some.inj hstep
      exact ⟨by simp [hs.1], hs.2⟩

/-- The strings of an operation mean nothing else between quotes. -/
def AuthEvent.IsPlain : AuthEvent → Prop
  | .createAccount username password _ => Plain username ∧ Plain password
  | .removeAccount username _ => Plain username
  | .changePassword .. => True

/-- **When an operation keeps the map in step**: with plain strings, in no other case. -/
theorem mirrors_authStep_iff {e : AuthEvent} (hs : Mirrors s) (hplain : e.IsPlain)
    (hstep : authStep server s e = some s') : Mirrors s' ↔ InStep s e := by
  refine ⟨fun hs' => ?_, fun he => mirrors_authStep hs he hstep⟩
  cases e with
  | createAccount username password affected =>
      obtain rfl := Option.some.inj hstep
      by_cases haff : affected = 0
      · exact .inl haff
      · exact .inr ⟨hplain.1, hplain.2,
          (mirrors_createAccount_iff hs hplain.1 hplain.2 haff).mp hs'⟩
  | removeAccount username affected =>
      obtain rfl := Option.some.inj hstep
      by_contra haff
      exact not_mirrors_removeAccount hplain haff hs'
  | changePassword username oldPasswd newPasswd newPasswdSec affected =>
      by_contra hno
      rw [InStep, not_or, not_not, not_not] at hno
      obtain ⟨t, ht⟩ := changePassword_unreturned hno.1 hno.2 affected
      rw [authStep, ht] at hstep
      obtain rfl := Option.some.inj hstep
      have hdefined := hs'.1
      simp at hdefined

end Operations

/-- Where the map mirrors the table, a password is accepted when the table has it. -/
theorem checkPassword_eq_success_iff {s : AuthState} (hs : Mirrors s)
    (username password : Bytes) :
    s.checkPassword username password = .success ↔
      ∃ a ∈ s.table, a.acc = username ∧ a.password = password := by
  rw [← hs.2 username password, AuthState.checkPassword]
  cases s.accounts username <;> simp

/-! ### Runs -/

/-- **The map mirrors the table** in every state that is reached from a table that loads by
operations that keep the map in step. -/
theorem mirrors_run (server : SqlServer) {table : List Account} (htable : Loadable table)
    {es : List AuthEvent} {s : AuthState}
    (hrun : Run (authStep server) InStep (AuthState.loadAccount table) es s) : Mirrors s :=
  hrun.invariant (fun _ _ _ hs he hstep => mirrors_authStep hs he hstep)
    ((mirrors_loadAccount_iff table).mpr htable)

/-- An account is loaded and a second one created; the database refuses to remove it, and its
password is not changed to two different ones. -/
theorem mirrors_run_created :
    ∃ s, Run (authStep ⟨fun _ => 0, fun _ table => table⟩) InStep
        (AuthState.loadAccount [⟨1, [97], [112]⟩])
        [.createAccount [98] [113] 1, .removeAccount [98] 0,
          .changePassword [98] [113] [99] [100] 1] s ∧
      Mirrors s := by
  have hload : Loadable [⟨1, [97], [112]⟩] := by simp [Loadable, BlankFree, isSpace]
  have hcreate : InStep (AuthState.loadAccount [⟨1, [97], [112]⟩])
      (.createAccount [98] [113] 1) := by
    simp [InStep, Plain, loadAccount_cons, extractWord, isSpace]
  have hremove : ∀ s, InStep s (.removeAccount [98] 0) := fun _ => rfl
  have hchange : ∀ s, InStep s (.changePassword [98] [113] [99] [100] 1) :=
    fun _ => .inl (by simp)
  obtain ⟨s, hrun⟩ : ∃ s, Run (authStep ⟨fun _ => 0, fun _ table => table⟩) InStep
      (AuthState.loadAccount [⟨1, [97], [112]⟩])
      [.createAccount [98] [113] 1, .removeAccount [98] 0,
        .changePassword [98] [113] [99] [100] 1] s :=
    ⟨_, .cons hcreate rfl (.cons (hremove _) rfl (.cons (hchange _) rfl (.nil _)))⟩
  exact ⟨s, hrun, mirrors_run _ hload hrun⟩

/-- One of two accounts is loaded; and an account that is removed stays in the table. -/
theorem not_mirrors_removed :
    ¬ Mirrors (AuthState.loadAccount [⟨1, [97], [112]⟩, ⟨2, [98], [113]⟩]) ∧
      ∃ s, authStep ⟨fun _ => 0, fun _ table => table⟩
          (AuthState.loadAccount [⟨1, [97], [112]⟩]) (.removeAccount [97] 1) = some s ∧
        ¬ Mirrors s := by
  constructor
  · rw [mirrors_loadAccount_iff]
    simp [Loadable]
  · exact ⟨_, rfl, not_mirrors_removeAccount (by simp [Plain]) one_ne_zero⟩

end Aquarius
