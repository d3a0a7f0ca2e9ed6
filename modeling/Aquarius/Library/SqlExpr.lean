import Aquarius.Library.SqlTokens

/-!
# Reading SQL Expressions and Lists

The grammar behind the tokens: an expression is a chain of `or` over chains of `and` over chains
of comparisons over literals, columns and parentheses, each chain to the left; a list is items with
commas between them.

A reader takes what it can from the front and leaves the rest. The rules say what it makes of a
run of tokens whatever follows, up to a token that would continue the chain.

## Main results

* `Opens.snoc`, `Opens.close`: a chain grows by one operator and operand, and ends where nothing
  continues it.
* `OpensOr.paren`, `OpensOr.expression_eq`: a chain of `or` is an operand in parentheses, and an
  expression.
* `levels_integer`: an expression that is a mere integer has it in front and no `and` behind it.
* `sepBy_eq`: a list is read item by item.
-/

open Decoding

namespace Sql

/-- Expressions. -/
inductive Expr where
  | column (s : Bytes)
  | integer (v : ℤ)
  | text (s : Bytes)
  | compare (op : Comparison) (l r : Expr)
  | and (l r : Expr)
  | or (l r : Expr)
  deriving DecidableEq, Repr

/-- Takes a value from the front of the tokens and leaves the rest. -/
abbrev Reader (α : Type) := List Token → Option (α × List Token)

/-! ### Chains of one operator -/

section Chain

variable (op : Token → Option (Expr → Expr → Expr)) (item : Reader Expr)

/-- The operators and operands behind a first operand, to the left. -/
def chainRest : ℕ → Expr → Reader Expr
  | n + 1, e, t :: ts =>
      match op t with
      | none => some (e, t :: ts)
      | some f => (item ts).bind fun r => chainRest n (f e r.1) r.2
  | _, e, ts => some (e, ts)

/-- Operands with operators between them. -/
def chain : Reader Expr := fun ts =>
  (item ts).bind fun r => chainRest op item r.2.length r.1 r.2

/-- No operator of the chain comes next. -/
def Follows (ts : List Token) : Prop := ∀ t ∈ ts.head?, op t = none

variable {op item}

theorem follows_nil : Follows op [] := fun _ ht => nomatch ht

theorem follows_cons {t : Token} (ht : op t = none) (ts : List Token) : Follows op (t :: ts) := by
  intro t' ht'
  obtain rfl := Option.some.inj ht'
  exact ht

/-- A chain ends where no operator follows. -/
theorem chainRest_of_follows {ts : List Token} (hts : Follows op ts) (n : ℕ) (e : Expr) :
    chainRest op item n e ts = some (e, ts) := by
  cases n with
  | zero => rfl
  | succ n =>
      cases ts with
      | nil => rfl
      | cons t ts => rw [chainRest, hts t rfl]

/-- Read by the items of a chain, up to a token that continues an item. -/
def ReadsItem (item : Reader Expr) (stop : List Token → Prop) (e : Expr) (ts : List Token) : Prop :=
  ∀ rest, stop rest → item (ts ++ rest) = some (e, rest)

/-- The tokens start a chain that has come to `e` behind them. -/
def Opens (op : Token → Option (Expr → Expr → Expr)) (item : Reader Expr)
    (stop : List Token → Prop) (e : Expr) (ts : List Token) : Prop :=
  ∀ rest, stop rest → ∃ n, rest.length ≤ n ∧
    chain op item (ts ++ rest) = chainRest op item n e rest

/-- A chain starts with an operand. -/
theorem ReadsItem.opens {stop : List Token → Prop} {e : Expr} {ts : List Token}
    (h : ReadsItem item stop e ts) : Opens op item stop e ts := by
  intro rest hrest
  refine ⟨rest.length, le_rfl, ?_⟩
  rw [chain, h rest hrest, Option.bind_some]

/-- One operator and one operand more. -/
theorem Opens.snoc {stop : List Token → Prop} {l r : Expr} {ts us : List Token} {t : Token}
    {f : Expr → Expr → Expr} (hl : Opens op item stop l ts) (hstop : ∀ rest, stop (t :: rest))
    (ht : op t = some f) (hr : ReadsItem item stop r us) :
    Opens op item stop (f l r) (ts ++ t :: us) := by
  intro rest hrest
  obtain ⟨n, hn, hchain⟩ := hl (t :: (us ++ rest)) (hstop _)
  obtain ⟨k, rfl⟩ : ∃ k, n = k + 1 := Nat.exists_eq_succ_of_ne_zero (by
    rw [List.length_cons] at hn
    omega)
  refine ⟨k, ?_, ?_⟩
  · rw [List.length_cons, List.length_append] at hn
    omega
  · rw [List.append_assoc, List.cons_append, hchain, chainRest, ht]
    simp only [hr rest hrest, Option.bind_some]

/-- A chain is read up to where nothing continues it. -/
theorem Opens.close {stop : List Token → Prop} {e : Expr} {ts : List Token}
    (h : Opens op item stop e ts) :
    ReadsItem (chain op item) (fun rest => stop rest ∧ Follows op rest) e ts := by
  rintro rest ⟨hstop, hfollows⟩
  obtain ⟨n, -, hchain⟩ := h rest hstop
  rw [hchain, chainRest_of_follows hfollows]

/-- Behind a first operand, an operator takes the chain to what the operator makes. -/
private theorem chainRest_integer {v : ℤ}
    (hop : ∀ t f, op t = some f → ∀ l r, f l r ≠ .integer v) (n : ℕ) {e : Expr}
    {us rest : List Token} (h : chainRest op item n e us = some (.integer v, rest)) :
    e = .integer v ∧ us = rest ∧ (us.length ≤ n → Follows op us) := by
  induction n generalizing e us with
  | zero =>
      obtain ⟨rfl, rfl⟩ := Prod.mk.inj (Option.some.inj h)
      refine ⟨rfl, rfl, fun hlen => ?_⟩
      rw [List.length_eq_zero_iff.mp (Nat.le_zero.mp hlen)]
      exact follows_nil
  | succ n ih =>
      cases us with
      | nil =>
          obtain ⟨rfl, rfl⟩ := Prod.mk.inj (Option.some.inj h)
          exact ⟨rfl, rfl, fun _ => follows_nil⟩
      | cons t us =>
          rw [chainRest] at h
          cases ht : op t with
          | none =>
              rw [ht] at h
              obtain ⟨rfl, rfl⟩ := Prod.mk.inj (Option.some.inj h)
              exact ⟨rfl, rfl, fun _ => follows_cons ht us⟩
          | some f =>
              rw [ht] at h
              obtain ⟨r, -, hr⟩ := Option.bind_eq_some_iff.mp h
              exact absurd (ih hr).1 (hop t f ht e r.1)

/-- A chain whose operators make no integer is an integer only as its first operand, with no
operator behind it. -/
theorem chain_integer {ts rest : List Token} {v : ℤ}
    (hop : ∀ t f, op t = some f → ∀ l r, f l r ≠ .integer v)
    (h : chain op item ts = some (.integer v, rest)) :
    item ts = some (.integer v, rest) ∧ Follows op rest := by
  obtain ⟨⟨e, us⟩, hitem, hchain⟩ := Option.bind_eq_some_iff.mp h
  obtain ⟨rfl, rfl, hfollows⟩ := chainRest_integer hop _ hchain
  exact ⟨hitem, hfollows le_rfl⟩

end Chain

/-! ### Expressions -/

/-- The operators of the three levels, from loose to tight. -/
def orOp : Token → Option (Expr → Expr → Expr)
  | .or => some .or
  | _ => none

def andOp : Token → Option (Expr → Expr → Expr)
  | .and => some .and
  | _ => none

def compareOp : Token → Option (Expr → Expr → Expr)
  | .compare op => some (.compare op)
  | _ => none

/-- The three levels over the operands. -/
def levels (item : Reader Expr) : Reader Expr := chain orOp (chain andOp (chain compareOp item))

/-- Literals, columns and parentheses, with at most `fuel` parentheses around one another. -/
def primary : ℕ → Reader Expr
  | 0, _ => none
  | fuel + 1, ts =>
      match ts with
      | .number n :: rest => some (.integer n, rest)
      | .minus :: .number n :: rest => some (.integer (-n), rest)
      | .text s :: rest => some (.text s, rest)
      | .name s :: rest => some (.column s, rest)
      | .lparen :: rest =>
          (levels (primary fuel) rest).bind fun r =>
            match r.2 with
            | .rparen :: rest => some (r.1, rest)
            | _ => none
      | _ => none

/-- An expression at the front of the tokens. -/
def expression : Reader Expr := fun ts => levels (primary ts.length) ts

/-! ### Rules for expressions

What may follow depends on the level: anything behind an operand, and behind a chain no operator of
its own or a tighter one. -/

/-- What may follow an operand. -/
def AfterPrimary (_ : List Token) : Prop := True

/-- What may follow a chain of comparisons. -/
def AfterCompare (rest : List Token) : Prop := AfterPrimary rest ∧ Follows compareOp rest

/-- What may follow a chain of `and`. -/
def AfterAnd (rest : List Token) : Prop := AfterCompare rest ∧ Follows andOp rest

/-- What may follow an expression. -/
def AfterOr (rest : List Token) : Prop := AfterAnd rest ∧ Follows orOp rest

/-- An integer is an operand. -/
theorem primary_integerTokens (fuel : ℕ) (v : ℤ) (rest : List Token) :
    primary (fuel + 1) (integerTokens v ++ rest) = some (.integer v, rest) := by
  rw [integerTokens]
  split
  · rw [List.cons_append, List.singleton_append, primary]
    congr 3
    omega
  · rw [List.singleton_append, primary]
    congr 3
    omega

/-- An integer in front is the operand, whatever the reader expected. -/
theorem eq_of_primary_integerTokens {fuel : ℕ} {v : ℤ} {e : Expr} {ts rest : List Token}
    (h : primary fuel (integerTokens v ++ ts) = some (e, rest)) : e = .integer v ∧ rest = ts := by
  cases fuel with
  | zero => cases h
  | succ fuel =>
      rw [primary_integerTokens] at h
      obtain ⟨rfl, rfl⟩ := Prod.mk.inj (Option.some.inj h)
      exact ⟨rfl, rfl⟩

/-- An expression in parentheses is an operand. -/
theorem reads_primary_paren {fuel : ℕ} {e : Expr} {ts : List Token}
    (h : ReadsItem (levels (primary fuel)) AfterOr e ts) :
    ReadsItem (primary (fuel + 1)) AfterPrimary e (.lparen :: (ts ++ [.rparen])) := by
  intro rest _
  have hclose : AfterOr (.rparen :: rest) :=
    ⟨⟨⟨trivial, follows_cons rfl rest⟩, follows_cons rfl rest⟩, follows_cons rfl rest⟩
  rw [List.cons_append, List.append_assoc, List.singleton_append, primary, h _ hclose,
    Option.bind_some]

/-! ### Expressions put together

The same three levels with the number of parentheses bounded by that of the tokens, so that texts can
be put together without counting. -/

/-- The tokens are an operand of `and`. -/
def ReadsComparison (e : Expr) (ts : List Token) : Prop :=
  ∀ fuel, ts.length ≤ fuel → ReadsItem (chain compareOp (primary fuel)) AfterCompare e ts

/-- The tokens start a chain of `and`. -/
def OpensAnd (e : Expr) (ts : List Token) : Prop :=
  ∀ fuel, ts.length ≤ fuel → Opens andOp (chain compareOp (primary fuel)) AfterCompare e ts

/-- The tokens start a chain of `or`. -/
def OpensOr (e : Expr) (ts : List Token) : Prop :=
  ∀ fuel, ts.length ≤ fuel →
    Opens orOp (chain andOp (chain compareOp (primary fuel))) AfterAnd e ts

/-- A column compared with an operand is a comparison. -/
theorem readsComparison_compare (s : Bytes) (op : Comparison) {e : Expr} {ts : List Token}
    (h : ∀ fuel rest, primary (fuel + 1) (ts ++ rest) = some (e, rest)) :
    ReadsComparison (.compare op (.column s) e) (.name s :: .compare op :: ts) := by
  intro fuel hfuel
  obtain ⟨k, rfl⟩ : ∃ k, fuel = k + 1 := Nat.exists_eq_succ_of_ne_zero (by
    rw [List.length_cons] at hfuel
    omega)
  have hcolumn : ReadsItem (primary (k + 1)) AfterPrimary (.column s) [.name s] :=
    fun rest _ => rfl
  have hoperand : ReadsItem (primary (k + 1)) AfterPrimary e ts := fun rest _ => h k rest
  exact (hcolumn.opens.snoc (fun _ => trivial) rfl hoperand).close

theorem ReadsComparison.opensAnd {e : Expr} {ts : List Token} (h : ReadsComparison e ts) :
    OpensAnd e ts := fun fuel hfuel => (h fuel hfuel).opens

theorem OpensAnd.opensOr {e : Expr} {ts : List Token} (h : OpensAnd e ts) : OpensOr e ts :=
  fun fuel hfuel => (h fuel hfuel).close.opens

/-- One more operand of `and`. -/
theorem OpensAnd.snoc {l r : Expr} {ts us : List Token} (hl : OpensAnd l ts)
    (hr : ReadsComparison r us) : OpensAnd (.and l r) (ts ++ .and :: us) := by
  intro fuel hfuel
  rw [List.length_append, List.length_cons] at hfuel
  exact (hl fuel (by omega)).snoc (fun rest => ⟨trivial, follows_cons rfl rest⟩) rfl
    (hr fuel (by omega))

/-- One more operand of `or`. -/
theorem OpensOr.snoc {l r : Expr} {ts us : List Token} (hl : OpensOr l ts)
    (hr : ReadsComparison r us) : OpensOr (.or l r) (ts ++ .or :: us) := by
  intro fuel hfuel
  rw [List.length_append, List.length_cons] at hfuel
  exact (hl fuel (by omega)).snoc
    (fun rest => ⟨⟨trivial, follows_cons rfl rest⟩, follows_cons rfl rest⟩) rfl
    (hr.opensAnd fuel (by omega)).close

/-- In parentheses, a chain of `or` is an operand of `and`. -/
theorem OpensOr.paren {e : Expr} {ts : List Token} (h : OpensOr e ts) :
    ReadsComparison e (.lparen :: (ts ++ [.rparen])) := by
  intro fuel hfuel
  rw [List.length_cons, List.length_append] at hfuel
  obtain ⟨k, rfl⟩ : ∃ k, fuel = k + 1 := Nat.exists_eq_succ_of_ne_zero (by omega)
  exact (reads_primary_paren (h k (by omega)).close).opens.close

/-- **A chain of `or` is an expression.** -/
theorem OpensOr.expression_eq {e : Expr} {ts : List Token} (h : OpensOr e ts) :
    expression ts = some (e, []) := by
  have hnil : AfterOr [] := ⟨⟨⟨trivial, follows_nil⟩, follows_nil⟩, follows_nil⟩
  have hread := (h ts.length le_rfl).close [] hnil
  rwa [List.append_nil] at hread

/-- An integer is an expression. -/
theorem opensOr_integer (v : ℤ) : OpensOr (.integer v) (integerTokens v) := by
  have hcompare : ReadsComparison (.integer v) (integerTokens v) := by
    intro fuel hfuel
    obtain ⟨k, rfl⟩ : ∃ k, fuel = k + 1 := Nat.exists_eq_succ_of_ne_zero (by
      rw [integerTokens] at hfuel
      split at hfuel
      · rw [List.length_cons] at hfuel
        omega
      · rw [List.length_singleton] at hfuel
        omega)
    have hprimary : ReadsItem (primary (k + 1)) AfterPrimary (.integer v) (integerTokens v) :=
      fun rest _ => primary_integerTokens k v rest
    exact hprimary.opens.close
  exact hcompare.opensAnd.opensOr

/-! ### Expressions taken apart -/

/-- No operator makes an integer of its operands. -/
private theorem operator_ne (v : ℤ) {t : Token} {f : Expr → Expr → Expr}
    (ht : orOp t = some f ∨ andOp t = some f ∨ compareOp t = some f) (l r : Expr) :
    f l r ≠ .integer v := by
  rcases ht with ht | ht | ht
  all_goals
    cases t <;> cases ht
    exact Expr.noConfusion

/-- **An expression that is a mere integer** has it for its first operand, and no `and` behind
it. -/
theorem levels_integer {fuel : ℕ} {ts rest : List Token} {v : ℤ}
    (h : levels (primary fuel) ts = some (.integer v, rest)) :
    primary fuel ts = some (.integer v, rest) ∧ Follows andOp rest := by
  obtain ⟨hand, -⟩ := chain_integer (fun _ _ ht => operator_ne v (.inl ht)) h
  obtain ⟨hcompare, hfollows⟩ :=
    chain_integer (fun _ _ ht => operator_ne v (.inr (.inl ht))) hand
  exact ⟨(chain_integer (fun _ _ ht => operator_ne v (.inr (.inr ht))) hcompare).1, hfollows⟩

/-- An operand that is an integer is a number, a negated one, or stands in parentheses. -/
theorem primary_integer {fuel : ℕ} {ts rest : List Token} {v : ℤ}
    (h : primary fuel ts = some (.integer v, rest)) :
    (∃ n : ℕ, ts = .number n :: rest ∧ v = n) ∨
    (∃ n : ℕ, ts = .minus :: .number n :: rest ∧ v = -n) ∨
    ∃ us k, ts = .lparen :: us ∧ levels (primary k) us = some (.integer v, .rparen :: rest) := by
  cases fuel with
  | zero => cases h
  | succ fuel =>
      rw [primary.eq_def] at h
      simp only at h
      split at h
      case h_1 n us =>
          obtain ⟨he, rfl⟩ := Prod.mk.inj (Option.some.inj h)
          exact .inl ⟨n, rfl, (Expr.integer.inj he).symm⟩
      case h_2 n us =>
          obtain ⟨he, rfl⟩ := Prod.mk.inj (Option.some.inj h)
          exact .inr (.inl ⟨n, rfl, (Expr.integer.inj he).symm⟩)
      case h_5 us =>
          obtain ⟨⟨e, vs⟩, hlevels, hclose⟩ := Option.bind_eq_some_iff.mp h
          simp only at hclose
          split at hclose
          · obtain ⟨rfl, rfl⟩ := Prod.mk.inj (Option.some.inj hclose)
            exact .inr (.inr ⟨us, fuel, rfl, hlevels⟩)
          · cases hclose
      all_goals cases h

/-! ### Lists -/

section List

variable {α : Type} (item : Reader α)

/-- The items behind a first one, each with a comma in front. -/
def sepRest : ℕ → Reader (List α)
  | n + 1, .comma :: ts =>
      (item ts).bind fun r => (sepRest n r.2).map fun rs => (r.1 :: rs.1, rs.2)
  | _, ts => some ([], ts)

/-- Items with commas between them. -/
def sepBy : Reader (List α) := fun ts =>
  (item ts).bind fun r => (sepRest item r.2.length r.2).map fun rs => (r.1 :: rs.1, rs.2)

/-- A list in parentheses, which may be empty. -/
def parenthesised : Reader (List α)
  | .lparen :: .rparen :: ts => some ([], ts)
  | .lparen :: ts =>
      (sepBy item ts).bind fun r =>
        match r.2 with
        | .rparen :: rest => some (r.1, rest)
        | _ => none
  | _ => none

variable {item}

/-- A list ends where no comma follows. -/
theorem sepRest_of_ne {rest : List Token} (hrest : rest.head? ≠ some .comma) (n : ℕ) :
    sepRest item n rest = some ([], rest) := by
  cases n with
  | zero => rfl
  | succ n =>
      rw [sepRest]
      rintro k ts - rfl
      exact hrest rfl

/-- A list behind its first item, when each item is read from its own tokens. -/
theorem sepRest_flatMap {β : Type} {toks : β → List Token} {value : β → α}
    (hitem : ∀ x rest, item (toks x ++ rest) = some (value x, rest)) {rest : List Token}
    (hrest : rest.head? ≠ some .comma) (xs : List β) {n : ℕ} (hn : xs.length ≤ n) :
    sepRest item n (xs.flatMap (fun x => .comma :: toks x) ++ rest) =
      some (xs.map value, rest) := by
  induction xs generalizing n with
  | nil => exact sepRest_of_ne hrest n
  | cons x xs ih =>
      obtain ⟨k, rfl⟩ : ∃ k, n = k + 1 := Nat.exists_eq_succ_of_ne_zero (by
        rw [List.length_cons] at hn
        omega)
      rw [List.flatMap_cons, List.append_assoc, List.cons_append, sepRest, hitem, Option.bind_some,
        ih (Nat.le_of_succ_le_succ hn)]
      rfl

private theorem length_le_commaTail {β : Type} (toks : β → List Token) (xs : List β) :
    xs.length ≤ (xs.flatMap (fun x => Token.comma :: toks x)).length := by
  induction xs with
  | nil => rfl
  | cons x xs ih =>
      rw [List.flatMap_cons, List.length_append, List.length_cons, List.length_cons]
      omega

/-- **A list is read** item by item. -/
theorem sepBy_eq {β : Type} {toks : β → List Token} {value : β → α}
    (hitem : ∀ x rest, item (toks x ++ rest) = some (value x, rest)) {rest : List Token}
    (hrest : rest.head? ≠ some .comma) (x : β) (xs : List β) :
    sepBy item (toks x ++ (xs.flatMap (fun x => .comma :: toks x) ++ rest)) =
      some ((x :: xs).map value, rest) := by
  have hlen : xs.length ≤ (xs.flatMap (fun x => Token.comma :: toks x) ++ rest).length := by
    rw [List.length_append]
    exact (length_le_commaTail toks xs).trans (Nat.le_add_right _ _)
  rw [sepBy, hitem, Option.bind_some, sepRest_flatMap hitem hrest xs hlen]
  rfl

/-- In parentheses, a list that is not empty is read to the closing one. -/
theorem parenthesised_eq_cons_iff (hclose : ∀ ts, item (.rparen :: ts) = none) {ts rest : List Token}
    {x : α} {xs : List α} :
    parenthesised item (.lparen :: ts) = some (x :: xs, rest) ↔
      sepBy item ts = some (x :: xs, .rparen :: rest) := by
  by_cases hnil : ∃ us, ts = .rparen :: us
  · obtain ⟨us, rfl⟩ := hnil
    rw [parenthesised, sepBy, hclose]
    constructor
    · intro h
      cases h
    · intro h
      cases h
  · have hparen : parenthesised item (.lparen :: ts) = (sepBy item ts).bind fun r =>
        match r.2 with
        | .rparen :: rest => some (r.1, rest)
        | _ => none := by
      rw [parenthesised]
      rintro us rfl
      exact hnil ⟨us, rfl⟩
    rw [hparen, Option.bind_eq_some_iff]
    constructor
    · rintro ⟨⟨ys, us⟩, hsep, h⟩
      simp only at h
      split at h
      · obtain ⟨rfl, rfl⟩ := Prod.mk.inj (Option.some.inj h)
        exact hsep
      · cases h
    · exact fun hsep => ⟨_, hsep, rfl⟩

end List

/-! ### Statements -/

/-- The literal values of a row. -/
inductive Value where
  | integer (v : ℤ)
  | text (s : Bytes)
  deriving DecidableEq, Repr

/-- A literal. -/
def literal : Reader Value
  | .number n :: ts => some (.integer n, ts)
  | .minus :: .number n :: ts => some (.integer (-n), ts)
  | .text s :: ts => some (.text s, ts)
  | _ => none

/-- The name of a column. -/
def columnName : Reader Bytes
  | .name s :: ts => some (s, ts)
  | _ => none

/-- One column set to an expression. -/
def assignment : Reader (Bytes × Expr)
  | .name s :: .compare .eq :: ts => (expression ts).map fun r => ((s, r.1), r.2)
  | _ => none

/-- A word that has to come next. -/
def keyword (word : Bytes) : List Token → Option (List Token)
  | .name s :: ts => if s = word then some ts else none
  | _ => none

@[simp] theorem keyword_self (word : Bytes) (ts : List Token) :
    keyword word (.name word :: ts) = some ts := if_pos rfl

/-- An `insert` of one row: the table, the columns and the values. -/
def readInsert (sql : Bytes) : Option (Bytes × List Bytes × List Value) := do
  let ts ← tokens sql
  let ts ← keyword (textBytes "insert") ts
  let ts ← keyword (textBytes "into") ts
  let (table, ts) ← columnName ts
  let (columns, ts) ← parenthesised columnName ts
  let ts ← keyword (textBytes "values") ts
  let (row, ts) ← parenthesised literal ts
  if ts = [] then some (table, columns, row) else none

/-- An `update` without a condition: the table and the assignments. -/
def readUpdate (sql : Bytes) : Option (Bytes × List (Bytes × Expr)) := do
  let ts ← tokens sql
  let ts ← keyword (textBytes "update") ts
  let (table, ts) ← columnName ts
  let ts ← keyword (textBytes "set") ts
  let (assignments, ts) ← sepBy assignment ts
  if ts = [] then some (table, assignments) else none

/-- A `where` clause: its condition. -/
def readWhere (sql : Bytes) : Option Expr := do
  let ts ← tokens sql
  let ts ← keyword (textBytes "where") ts
  let (e, ts) ← expression ts
  if ts = [] then some e else none

end Sql
