import Aquarius.TblStatements
import Mathlib.Logic.Function.Basic

/-!
# Conditions and the Views They Are Piped Into

The conditions of `tbl` are objects: a comparison overwrites the text of a `grep_view`, `||` appends
the text of another one and sets a flag that no comparison clears, and the flag puts parentheses
around the text wherever it is used (`tbl/grep_view.hpp`). A `select_view`, `update_view` or
`remove_view` starts its statement at `operator()` and appends the text of every condition piped into
it, with `where` in front of the first and `and` in front of the others.

The objects are global and used again, so a program is a run of operations on them (`TblOp`,
`TblState.step`). What a run means is kept beside it: the condition each object stands for and the
conditions piped into each view since its last `operator()` (`Meaning`).

## Main results

* `denotes_of_run`: in every run in which no object is combined with itself and no comparison is with
  an integer of eight bits, the text of every view is its statement, followed by nothing or by a
  `where` clause that reads as the conjunction of what was piped.
* `not_denotes_self`: an object combined with itself leaves an `or` without an operand.
-/

open Decoding

namespace Aquarius

/-! ### Conditions -/

/-- `grep_view<Ptr>`: its text, and whether something was ever appended to it. -/
structure GrepView where
  /-- `content_stream_` -/
  content : Bytes
  /-- `has_aggr_` -/
  hasAggr : Bool
  deriving DecidableEq, Repr

namespace GrepView

/-- The comparisons overwrite the text with the name of the member, a sign and the value. -/
def overwrite (sign : String) (m : Member) (value : m.type.Val) (g : GrepView) : GrepView :=
  { g with content := m.name ++ textBytes sign ++ putValue m.type (addString m.type value) }

/-- `grep_view::less` -/
def less := overwrite " < "

/-- `grep_view::less_equal` -/
def lessEqual := overwrite " <= "

/-- `grep_view::greater` -/
def greater := overwrite " > "

/-- `grep_view::greater_equal` -/
def greaterEqual := overwrite " >= "

/-- `grep_view::equal` -/
def equal := overwrite " = "

/-- `grep_view::operator==`, `operator<`, `operator<=`, `operator>` and `operator>=` -/
def compare : Sql.Comparison → (m : Member) → m.type.Val → GrepView → GrepView
  | .eq => equal
  | .lt => less
  | .le => lessEqual
  | .gt => greater
  | .ge => greaterEqual

/-- `grep_view::operator std::string` -/
def toText (g : GrepView) : Bytes :=
  if g.hasAggr then textBytes "(" ++ g.content ++ textBytes ")" else g.content

/-- `content_stream_ << s` -/
def write (s : Bytes) (g : GrepView) : GrepView := { g with content := g.content ++ s }

end GrepView

/-! ### Views -/

/-- The three kinds of views, with what their type fixes: the statement of a `select_view<T, Args...>`
and the name of the struct of a `remove_view<T>`. -/
inductive ViewKind where
  | select (content : Bytes)
  | update
  | remove (structName : Bytes)
  deriving DecidableEq, Repr

/-- What a view holds: its stream, and `has_condition_`. -/
structure ViewState where
  stream : Bytes
  hasCondition : Bool
  deriving DecidableEq, Repr

/-- The argument of `update_view::operator()`, the other two have none. -/
structure Aggregate where
  structName : Bytes
  members : List Member
  value : Record members

namespace ViewState

/-- `select_view::operator()` -/
def selectCall : ViewState := ⟨[], false⟩

/-- `update_view::operator()` -/
def updateCall (a : Aggregate) : ViewState := ⟨updateView a.structName a.members a.value, false⟩

/-- `remove_view::operator()` -/
def removeCall (structName : Bytes) : ViewState := ⟨textBytes "delete from " ++ structName, false⟩

/-- `operator()` of a view. -/
def call (a : Aggregate) : ViewKind → ViewState
  | .select _ => selectCall
  | .update => updateCall a
  | .remove structName => removeCall structName

/-- A condition is merged behind one word or another. -/
def mergeBehind (first next : Bytes) (g : Bytes) (v : ViewState) : ViewState :=
  if v.hasCondition then { v with stream := v.stream ++ next ++ g }
  else ⟨v.stream ++ first ++ g, true⟩

/-- `select_view::merge` -/
def selectMerge (g : Bytes) : ViewState → ViewState :=
  mergeBehind (textBytes " where") (textBytes " and") (textBytes " " ++ g)

/-- `update_view::merge` -/
def updateMerge (g : Bytes) : ViewState → ViewState :=
  mergeBehind (textBytes " where ") (textBytes " and ") g

/-- `remove_view::merge` -/
def removeMerge (g : Bytes) : ViewState → ViewState :=
  mergeBehind (textBytes " where ") (textBytes " and ") g

/-- `operator|` of a view. -/
def merge (g : Bytes) : ViewKind → ViewState → ViewState
  | .select _ => selectMerge g
  | .update => updateMerge g
  | .remove _ => removeMerge g

/-- `operator std::string` of a view. -/
def toText (v : ViewState) : ViewKind → Bytes
  | .select content => content ++ v.stream
  | .update => v.stream
  | .remove _ => v.stream

end ViewState

/-! ### Runs -/

/-- The objects of a program: the member that each condition is bound to, and the kind of each
view. -/
structure TblObjects where
  member : ℕ → Member
  kind : ℕ → ViewKind

/-- The operations of a program on its objects. -/
inductive TblOp (objs : TblObjects) where
  /-- a new condition object in the place of an old one -/
  | create (g : ℕ)
  /-- a comparison -/
  | compare (g : ℕ) (op : Sql.Comparison) (value : (objs.member g).type.Val)
  /-- `g || h` -/
  | or (g h : ℕ)
  /-- `operator()` of a view -/
  | call (v : ℕ) (a : Aggregate)
  /-- `v | g` -/
  | pipe (v g : ℕ)

/-- The state of the objects. -/
structure TblState where
  grep : ℕ → GrepView
  view : ℕ → ViewState

namespace TblState

variable {objs : TblObjects} (s : TblState)

/-- A condition object is replaced. -/
def setGrep (g : ℕ) (x : GrepView) : TblState := { s with grep := Function.update s.grep g x }

/-- A view is replaced. -/
def setView (v : ℕ) (x : ViewState) : TblState := { s with view := Function.update s.view v x }

/-- `g1._or(g2)`: the flag is set and the word written before the text of the other object is
asked for, which may be the same object. -/
def orGrep (g h : ℕ) : TblState :=
  let s := s.setGrep g ((({ s.grep g with hasAggr := true } : GrepView)).write (textBytes " or "))
  s.setGrep g ((s.grep g).write (s.grep h).toText)

/-- One operation. -/
def step : TblOp objs → TblState
  | .create g => s.setGrep g ⟨[], false⟩
  | .compare g op value => s.setGrep g ((s.grep g).compare op (objs.member g) value)
  | .or g h => s.orGrep g h
  | .call v a => s.setView v (.call a (objs.kind v))
  | .pipe v g => s.setView v ((s.view v).merge (s.grep g).toText (objs.kind v))

/-- A run of operations. -/
def run (ops : List (TblOp objs)) : TblState := ops.foldl step s

end TblState

/-! ### What a run means -/

/-- What the objects stand for: the condition of each `grep_view` once it has been compared, and the
statement of each view once it has been called, with the conditions piped into it since. -/
structure Meaning where
  cond : ℕ → Option Sql.Expr
  piped : ℕ → Option (Bytes × List Sql.Expr)

namespace Meaning

variable {objs : TblObjects} (m : Meaning)

/-- Nothing is known of the objects. -/
def start : Meaning := ⟨fun _ => none, fun _ => none⟩

/-- The statement that a view starts at its `operator()`. -/
def statement (a : Aggregate) : ViewKind → Bytes
  | .select content => content
  | .update => updateView a.structName a.members a.value
  | .remove structName => textBytes "delete from " ++ structName

/-- The condition of an object changes. -/
def setCond (g : ℕ) (c : Option Sql.Expr) : Meaning :=
  { m with cond := Function.update m.cond g c }

/-- What has been piped into a view changes. -/
def setPiped (v : ℕ) (p : Option (Bytes × List Sql.Expr)) : Meaning :=
  { m with piped := Function.update m.piped v p }

/-- What one operation is for. -/
def step : TblOp objs → Meaning
  | .create g => m.setCond g none
  | .compare g op value =>
      m.setCond g (some (.compare op (.column (objs.member g).name)
        (Field.expr ⟨(objs.member g).type, value⟩)))
  | .or g h => m.setCond g ((m.cond g).bind fun c => (m.cond h).map c.or)
  | .call v a => m.setPiped v (some (statement a (objs.kind v), []))
  | .pipe v g =>
      m.setPiped v ((m.piped v).bind fun p => (m.cond g).map fun c => (p.1, p.2 ++ [c]))

/-- What a run is for. -/
def run (ops : List (TblOp objs)) : Meaning := ops.foldl step m

end Meaning

/-- The conjunction of conditions, to the left. -/
def conjunction : List Sql.Expr → Option Sql.Expr
  | [] => none
  | c :: cs => some (cs.foldl .and c)

/-- The text of every view is what was piped into it: its statement, and behind it nothing, or a
clause that reads as the conjunction. -/
def Denotes (objs : TblObjects) (s : TblState) (m : Meaning) : Prop :=
  ∀ v b cs, m.piped v = some (b, cs) → ∃ clause, (s.view v).toText (objs.kind v) = b ++ clause ∧
    (cs = [] → clause = []) ∧ (cs ≠ [] → Sql.readWhere clause = conjunction cs)

/-- The condition on an operation: no object is combined with itself, and what is compared is
readable, which for an integer means that it has more than eight bits. -/
def TblOp.Meets {objs : TblObjects} : TblOp objs → Prop
  | .compare g _ value => Field.Readable ⟨(objs.member g).type, value⟩
  | .or g h => g ≠ h
  | _ => True

instance {objs : TblObjects} (op : TblOp objs) : Decidable op.Meets :=
  match op with
  | .compare g _ value => inferInstanceAs (Decidable (Field.Readable ⟨(objs.member g).type, value⟩))
  | .or g h => inferInstanceAs (Decidable (g ≠ h))
  | .create _ | .call _ _ | .pipe _ _ => inferInstanceAs (Decidable True)

/-! ### Texts and what they are read as -/

/-- The text is these tokens, whatever follows that does not continue the last of them. -/
def Lexes (s : Bytes) (ts : List Sql.Token) : Prop :=
  ∀ t, Sql.Apart t → Sql.tokens (s ++ t) = (Sql.tokens t).map (ts ++ ·)

/-- One text behind another with a word between them. -/
theorem Lexes.word {s t w : Bytes} {ts us : List Sql.Token} (hs : Lexes s ts) (ht : Lexes t us)
    (hw : Sql.isName w = true) :
    Lexes (s ++ (32 :: (w ++ 32 :: t))) (ts ++ Sql.wordToken w :: us) := by
  intro u hu
  simp only [List.append_assoc, List.cons_append]
  rw [hs _ (Sql.apart_cons (by decide) _), Sql.tokens_space (by decide),
    Sql.tokens_word hw (Sql.apart_cons (by decide) _), Sql.tokens_space (by decide), ht u hu,
    Option.map_map, Option.map_map]
  rfl

/-- A text in parentheses. -/
theorem Lexes.paren {s : Bytes} {ts : List Sql.Token} (hs : Lexes s ts) :
    Lexes (40 :: (s ++ [41])) (.lparen :: (ts ++ [.rparen])) := by
  intro u hu
  simp only [List.append_assoc, List.cons_append, List.nil_append]
  rw [Sql.tokens_lparen, hs _ (Sql.apart_cons (by decide) _), Sql.tokens_rparen, Option.map_map,
    Option.map_map]
  rfl

/-- A comparison. -/
theorem lexes_compare {m : Member} (hm : Sql.Identifier m.name) {value : m.type.Val}
    (hvalue : Field.Readable ⟨m.type, value⟩) (op : Sql.Comparison) (g : GrepView) :
    Lexes (g.compare op m value).content
      (.name m.name :: .compare op :: valueTokens (Field.value ⟨m.type, value⟩)) := by
  intro u hu
  have htext : (g.compare op m value).content =
      m.name ++ (32 :: (op.text ++ 32 :: Field.text ⟨m.type, value⟩)) := by
    cases op <;> exact List.append_assoc _ _ _
  rw [htext]
  simp only [List.append_assoc, List.cons_append]
  rw [Sql.tokens_identifier_space hm, Sql.tokens_compare, tokens_text hvalue hu, Option.map_map,
    Option.map_map]
  rfl

/-- A value is an operand. -/
theorem primary_valueTokens (fuel : ℕ) (f : Field) (rest : List Sql.Token) :
    Sql.primary (fuel + 1) (valueTokens f.value ++ rest) = some (f.expr, rest) := by
  match f with
  | ⟨.string, s⟩ => rfl
  | ⟨.integer signed width, v⟩ => exact Sql.primary_integerTokens fuel _ rest

/-! ### What is kept -/

/-- The text of an object stands for a condition: it is a chain of `or`, and a mere comparison as
long as the flag is not set. -/
structure Stands (g : GrepView) (c : Sql.Expr) (ts : List Sql.Token) : Prop where
  lexes : Lexes g.content ts
  opens : Sql.OpensOr c ts
  reads : g.hasAggr = false → Sql.ReadsComparison c ts

/-- The text of the conditions piped into a view. -/
structure Clause (clause : Bytes) (cs : List Sql.Expr) (ts : List Sql.Token) : Prop where
  lexes : Lexes clause (.name (textBytes "where") :: ts)
  opens : ∃ e, conjunction cs = some e ∧ Sql.OpensAnd e ts

/-- Every object stands for its condition, and every view holds its statement and what was piped into
it. -/
structure MeaningInv (objs : TblObjects) (s : TblState) (m : Meaning) : Prop where
  cond : ∀ g c, m.cond g = some c → ∃ ts, Stands (s.grep g) c ts
  empty : ∀ v b, m.piped v = some (b, []) →
    (s.view v).toText (objs.kind v) = b ∧ (s.view v).hasCondition = false
  piped : ∀ v b cs, m.piped v = some (b, cs) → cs ≠ [] → (s.view v).hasCondition = true ∧
    ∃ clause ts, (s.view v).toText (objs.kind v) = b ++ clause ∧ Clause clause cs ts

/-- What an object is used as: an operand of `and` and of `or`. -/
theorem Stands.toText {g : GrepView} {c : Sql.Expr} {ts : List Sql.Token} (h : Stands g c ts) :
    ∃ us, Lexes g.toText us ∧ Sql.ReadsComparison c us := by
  by_cases haggr : g.hasAggr = true
  · refine ⟨_, ?_, h.opens.paren⟩
    have htext : g.toText = 40 :: (g.content ++ [41]) := if_pos haggr
    rw [htext]
    exact h.lexes.paren
  · have htext : g.toText = g.content := if_neg haggr
    rw [htext]
    exact ⟨ts, h.lexes, h.reads (by simpa using haggr)⟩

/-- A comparison stands for itself, whatever the object was used for before. -/
theorem stands_compare {m : Member} (hm : Sql.Identifier m.name) {value : m.type.Val}
    (hvalue : Field.Readable ⟨m.type, value⟩) (op : Sql.Comparison) (g : GrepView) :
    ∃ ts, Stands (g.compare op m value)
      (.compare op (.column m.name) (Field.expr ⟨m.type, value⟩)) ts := by
  have hreads := Sql.readsComparison_compare m.name op
    fun fuel rest => primary_valueTokens fuel ⟨m.type, value⟩ rest
  exact ⟨_, lexes_compare hm hvalue op g, hreads.opensAnd.opensOr, fun _ => hreads⟩

/-- An object with another one appended stands for the disjunction. -/
theorem stands_or {g h : GrepView} {c d : Sql.Expr} {ts us : List Sql.Token} (hg : Stands g c ts)
    (hh : Stands h d us) :
    ∃ vs, Stands ⟨g.content ++ textBytes " or " ++ h.toText, true⟩ (.or c d) vs := by
  obtain ⟨ws, hlex, hread⟩ := hh.toText
  have htext : g.content ++ textBytes " or " ++ h.toText =
      g.content ++ (32 :: (textBytes "or" ++ 32 :: h.toText)) := by
    rw [List.append_assoc]
    rfl
  refine ⟨ts ++ .or :: ws, ?_, hg.opens.snoc hread, fun h => nomatch h⟩
  simp only [htext]
  exact hg.lexes.word hlex (by decide)

theorem lexes_nil : Lexes [] [] := fun _ _ => Option.map_id'.symm

/-- The first condition opens the clause. -/
theorem clause_first {g : Bytes} {c : Sql.Expr} {us : List Sql.Token} (hg : Lexes g us)
    (hc : Sql.ReadsComparison c us) : Clause (textBytes " where " ++ g) [c] us := by
  have hword : Sql.wordToken (textBytes "where") = .name (textBytes "where") := by decide
  have hlex := lexes_nil.word hg (w := textBytes "where") (by decide)
  rw [hword] at hlex
  exact ⟨hlex, c, rfl, hc.opensAnd⟩

/-- Every further condition is one more operand of `and`. -/
theorem Clause.snoc {clause g : Bytes} {cs : List Sql.Expr} {c : Sql.Expr}
    {ts us : List Sql.Token} (h : Clause clause cs ts) (hg : Lexes g us)
    (hc : Sql.ReadsComparison c us) :
    Clause (clause ++ textBytes " and " ++ g) (cs ++ [c]) (ts ++ .and :: us) := by
  obtain ⟨e, he, hopens⟩ := h.opens
  have htext : clause ++ textBytes " and " ++ g =
      clause ++ (32 :: (textBytes "and" ++ 32 :: g)) := by
    rw [List.append_assoc]
    rfl
  refine ⟨?_, .and e c, ?_, hopens.snoc hc⟩
  · rw [htext]
    exact h.lexes.word hg (by decide)
  · cases cs with
    | nil => cases he
    | cons d ds =>
        obtain rfl := Option.some.inj he
        rw [List.cons_append, conjunction, List.foldl_append, List.foldl_cons, List.foldl_nil]

/-- A clause is read as its conjunction. -/
theorem Clause.readWhere {clause : Bytes} {cs : List Sql.Expr} {ts : List Sql.Token}
    (h : Clause clause cs ts) : Sql.readWhere clause = conjunction cs := by
  obtain ⟨e, he, hopens⟩ := h.opens
  have hnil : Sql.tokens [] = some [] := rfl
  have htokens := h.lexes [] Sql.apart_nil
  rw [List.append_nil, hnil, Option.map_some, List.append_nil] at htokens
  simp only [Sql.readWhere, htokens, Option.bind_eq_bind, Option.bind_some, Sql.keyword_self,
    hopens.opensOr.expression_eq, he, if_true]

/-! ### Steps and runs -/

/-- The word in front of a condition. -/
def lead (hasCondition : Bool) : Bytes :=
  if hasCondition then textBytes " and " else textBytes " where "

/-- The three views write the same words, each in its own way. -/
theorem toText_merge (kind : ViewKind) (v : ViewState) (g : Bytes) :
    (v.merge g kind).toText kind = v.toText kind ++ (lead v.hasCondition ++ g) ∧
      (v.merge g kind).hasCondition = true := by
  have hwhere : textBytes " where " = textBytes " where" ++ textBytes " " := rfl
  have hand : textBytes " and " = textBytes " and" ++ textBytes " " := rfl
  obtain ⟨stream, hasCondition⟩ := v
  cases kind with
  | select content =>
      cases hasCondition <;>
        simp [ViewState.merge, ViewState.selectMerge, ViewState.mergeBehind, ViewState.toText, lead,
          hwhere, hand]
  | update =>
      cases hasCondition <;>
        simp [ViewState.merge, ViewState.updateMerge, ViewState.mergeBehind, ViewState.toText, lead]
  | remove structName =>
      cases hasCondition <;>
        simp [ViewState.merge, ViewState.removeMerge, ViewState.mergeBehind, ViewState.toText, lead]

/-- A view that has been called holds its statement and no condition. -/
theorem toText_call (kind : ViewKind) (a : Aggregate) :
    (ViewState.call a kind).toText kind = Meaning.statement a kind ∧
      (ViewState.call a kind).hasCondition = false := by
  cases kind with
  | select content => exact ⟨List.append_nil content, rfl⟩
  | update => exact ⟨rfl, rfl⟩
  | remove structName => exact ⟨rfl, rfl⟩

section Steps

variable {objs : TblObjects} {s : TblState} {m : Meaning}

/-- A change of one condition object keeps what is known of the views. -/
theorem MeaningInv.setGrep (h : MeaningInv objs s m) (g : ℕ) {x : GrepView} {c : Option Sql.Expr}
    (hx : ∀ e, c = some e → ∃ ts, Stands x e ts) :
    MeaningInv objs (s.setGrep g x) (m.setCond g c) := by
  refine ⟨fun k e hk => ?_, h.empty, h.piped⟩
  by_cases hkg : k = g
  · subst hkg
    simp only [TblState.setGrep, Meaning.setCond, Function.update_self] at hk ⊢
    exact hx e hk
  · simp only [TblState.setGrep, Meaning.setCond, Function.update_of_ne hkg] at hk ⊢
    exact h.cond k e hk

/-- A change of one view keeps what is known of the others. -/
theorem MeaningInv.setView (h : MeaningInv objs s m) (v : ℕ) {x : ViewState}
    {p : Option (Bytes × List Sql.Expr)}
    (hempty : ∀ b, p = some (b, []) → x.toText (objs.kind v) = b ∧ x.hasCondition = false)
    (hpiped : ∀ b cs, p = some (b, cs) → cs ≠ [] → x.hasCondition = true ∧
      ∃ clause ts, x.toText (objs.kind v) = b ++ clause ∧ Clause clause cs ts) :
    MeaningInv objs (s.setView v x) (m.setPiped v p) := by
  refine ⟨h.cond, fun k b hk => ?_, fun k b cs hk hcs => ?_⟩
  · by_cases hkv : k = v
    · subst hkv
      simp only [TblState.setView, Meaning.setPiped, Function.update_self] at hk ⊢
      exact hempty b hk
    · simp only [TblState.setView, Meaning.setPiped, Function.update_of_ne hkv] at hk ⊢
      exact h.empty k b hk
  · by_cases hkv : k = v
    · subst hkv
      simp only [TblState.setView, Meaning.setPiped, Function.update_self] at hk ⊢
      exact hpiped b cs hk hcs
    · simp only [TblState.setView, Meaning.setPiped, Function.update_of_ne hkv] at hk ⊢
      exact h.piped k b cs hk hcs

/-- Two different objects combined: the first one is replaced once. -/
theorem orGrep_of_ne (s : TblState) {g h : ℕ} (hgh : g ≠ h) :
    s.orGrep g h =
      s.setGrep g ⟨(s.grep g).content ++ textBytes " or " ++ (s.grep h).toText, true⟩ := by
  simp only [TblState.orGrep, TblState.setGrep, GrepView.write, Function.update_self,
    Function.update_of_ne hgh.symm, Function.update_idem]

/-- A condition piped into a view is the first of its clause, or one more. -/
theorem meaningInv_pipe (h : MeaningInv objs s m) (v g : ℕ) :
    MeaningInv objs (s.setView v ((s.view v).merge (s.grep g).toText (objs.kind v)))
      (m.setPiped v ((m.piped v).bind fun p => (m.cond g).map fun c => (p.1, p.2 ++ [c]))) := by
  obtain ⟨htext, hcondition⟩ := toText_merge (objs.kind v) (s.view v) (s.grep g).toText
  apply h.setView v
  · intro b hb
    obtain ⟨p, -, hp⟩ := Option.bind_eq_some_iff.mp hb
    obtain ⟨c, -, hc⟩ := Option.map_eq_some_iff.mp hp
    exact absurd (Prod.mk.inj hc).2 (List.append_ne_nil_of_right_ne_nil _ (List.cons_ne_nil _ _))
  · intro b cs hb _
    obtain ⟨⟨b', ds⟩, hp, hb⟩ := Option.bind_eq_some_iff.mp hb
    obtain ⟨c, hc, hbc⟩ := Option.map_eq_some_iff.mp hb
    obtain ⟨rfl, rfl⟩ := Prod.mk.inj hbc
    obtain ⟨ts, hstands⟩ := h.cond g c hc
    obtain ⟨us, hlex, hread⟩ := hstands.toText
    refine ⟨hcondition, ?_⟩
    rw [htext]
    by_cases hds : ds = []
    · subst hds
      obtain ⟨hbase, hnone⟩ := h.empty v b' hp
      rw [hbase, hnone]
      exact ⟨_, us, rfl, clause_first hlex hread⟩
    · obtain ⟨hsome, clause, vs, hbase, hclause⟩ := h.piped v b' ds hp hds
      rw [hbase, hsome]
      refine ⟨clause ++ textBytes " and " ++ (s.grep g).toText, _, ?_, hclause.snoc hlex hread⟩
      simp only [lead, if_true, List.append_assoc]

/-- **One operation** that meets the condition keeps what is known of every object. -/
theorem meaningInv_step (hname : ∀ g, Sql.Identifier (objs.member g).name)
    (h : MeaningInv objs s m) {op : TblOp objs} (hop : op.Meets) :
    MeaningInv objs (s.step op) (m.step op) := by
  cases op with
  | create g => exact h.setGrep g fun e he => nomatch he
  | compare g op value =>
      refine h.setGrep g fun e he => ?_
      obtain rfl := Option.some.inj he
      exact stands_compare (hname g) hop op (s.grep g)
  | or g k =>
      rw [TblState.step, orGrep_of_ne s hop]
      refine h.setGrep g fun e he => ?_
      obtain ⟨c, hc, he⟩ := Option.bind_eq_some_iff.mp he
      obtain ⟨d, hd, rfl⟩ := Option.map_eq_some_iff.mp he
      obtain ⟨ts, hg⟩ := h.cond g c hc
      obtain ⟨us, hk⟩ := h.cond k d hd
      exact stands_or hg hk
  | call v a =>
      obtain ⟨htext, hcondition⟩ := toText_call (objs.kind v) a
      refine h.setView v (fun b hb => ?_) (fun b cs hb hcs => ?_)
      · obtain ⟨rfl, -⟩ := Prod.mk.inj (Option.some.inj hb)
        exact ⟨htext, hcondition⟩
      · exact absurd (Prod.mk.inj (Option.some.inj hb)).2.symm hcs
  | pipe v g => exact meaningInv_pipe h v g

/-- What is known of the objects says what the views denote. -/
theorem MeaningInv.denotes (h : MeaningInv objs s m) : Denotes objs s m := by
  intro v b cs hv
  by_cases hcs : cs = []
  · subst hcs
    exact ⟨[], by rw [(h.empty v b hv).1, List.append_nil], fun _ => rfl, fun h => absurd rfl h⟩
  · obtain ⟨-, clause, ts, htext, hclause⟩ := h.piped v b cs hv hcs
    exact ⟨clause, htext, fun h => absurd h hcs, fun _ => hclause.readWhere⟩

/-- What a run keeps. -/
theorem meaningInv_run (hname : ∀ g, Sql.Identifier (objs.member g).name)
    (h : MeaningInv objs s m) {ops : List (TblOp objs)} (hops : ∀ op ∈ ops, op.Meets) :
    MeaningInv objs (s.run ops) (m.run ops) := by
  induction ops generalizing s m with
  | nil => exact h
  | cons op ops ih =>
      exact ih (meaningInv_step hname h (hops op List.mem_cons_self))
        fun o ho => hops o (List.mem_cons_of_mem op ho)

end Steps

/-- **Where clauses denote the conjunction of what was piped.** From objects in any state, in every
run whose operations meet the condition, the text of every view that has been called is its statement,
followed by nothing when nothing was piped into it, and else by a clause that reads, with `and` tighter
than `or`, as the conjunction of the conditions piped, in order. -/
theorem denotes_of_run {objs : TblObjects} (hname : ∀ g, Sql.Identifier (objs.member g).name)
    (s : TblState) {ops : List (TblOp objs)} (hops : ∀ op ∈ ops, op.Meets) :
    Denotes objs (s.run ops) (Meaning.start.run ops) := by
  have hstart : MeaningInv objs s Meaning.start :=
    ⟨fun _ _ h => (nomatch h), fun _ _ h => (nomatch h), fun _ _ _ h => (nomatch h)⟩
  exact (meaningInv_run hname hstart hops).denotes

/-- The model of the documentation, with conditions on the id and on the age of a person. -/
def personObjects : TblObjects where
  member g := if g = 0 then ⟨textBytes "id", .integer true .w32⟩ else ⟨textBytes "age", .integer true .w32⟩
  kind _ := .select (textBytes "select * from person")

/-- Fresh objects. -/
def freshObjects : TblState := ⟨fun _ => ⟨[], false⟩, fun _ => ⟨[], false⟩⟩

/-- An argument for the views that have none. -/
def noAggregate : Aggregate := ⟨[], [], ()⟩

/-- `(id == 1) || (age < 30)` piped, and `age < 30` again. -/
def pipedTwice : List (TblOp personObjects) :=
  [.compare 0 .eq 1#32, .compare 1 .lt 30#32, .or 0 1, .call 0 noAggregate, .pipe 0 0, .pipe 0 1]

/-- The theorem at two conditions, one of them a disjunction. -/
theorem denotes_pipedTwice :
    Denotes personObjects (freshObjects.run pipedTwice) (Meaning.start.run pipedTwice) ∧
      ((freshObjects.run pipedTwice).view 0).toText (personObjects.kind 0) =
        textBytes "select * from person where (id = 1 or age < 30) and age < 30" := by
  have hname : ∀ g, Sql.Identifier (personObjects.member g).name := by
    intro g
    simp only [personObjects]
    split <;> decide
  exact ⟨denotes_of_run hname freshObjects (by decide), by decide +kernel⟩

/-- `(id == 1) || (id == 1)` on the global object of the member, which is one object. -/
def combinedWithItself : List (TblOp personObjects) :=
  [.compare 0 .eq 1#32, .or 0 0, .call 0 noAggregate, .pipe 0 0]

/-- An object combined with itself writes its word before it asks for its own text: the clause ends
in an `or` without an operand and is no condition. -/
theorem not_denotes_self :
    ¬ Denotes personObjects (freshObjects.run combinedWithItself)
        (Meaning.start.run combinedWithItself) ∧
      ((freshObjects.run combinedWithItself).view 0).toText (personObjects.kind 0) =
        textBytes "select * from person where (id = 1 or (id = 1 or ))" := by
  have htext : ((freshObjects.run combinedWithItself).view 0).toText (personObjects.kind 0) =
      textBytes "select * from person" ++ textBytes " where (id = 1 or (id = 1 or ))" := by
    decide +kernel
  refine ⟨fun h => ?_, htext⟩
  obtain ⟨clause, hclause, -, hread⟩ := h 0 (textBytes "select * from person") _ rfl
  obtain rfl := List.append_cancel_left (hclause.symm.trans htext)
  have hnone : Sql.readWhere (textBytes " where (id = 1 or (id = 1 or ))") = none := by
    decide +kernel
  rw [hnone] at hread
  cases hread (List.cons_ne_nil _ _)

end Aquarius
