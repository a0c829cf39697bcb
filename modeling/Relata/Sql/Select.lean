import Relata.Guard
import Relata.Sql.Condition
import Relata.Text.Case

/-!
Statements. A `Select` is one SELECT with all its parts; a `Statement` is a select and the branches
united with it. A branch keeps the select it was given, and is written without its ordering and
limits, which come once, after the last branch. A statement is handed out only past the guard.
-/

namespace Relata.Sql

inductive JoinKind where
  | inner
  | left
  | right
  | cross
deriving DecidableEq, Inhabited

def JoinKind.word : JoinKind → String
  | inner => "INNER"
  | left => "LEFT"
  | right => "RIGHT"
  | cross => "CROSS"

/-- The name of a kind of join, as it is given by a caller. -/
def JoinKind.name : JoinKind → String
  | inner => "inner"
  | left => "left"
  | right => "right"
  | cross => "cross"

/-- A join on a comparison of two columns; a cross join has none. -/
structure Join where
  kind : JoinKind
  table : String
  first : String
  operator : String
  second : String

def Join.text (j : Join) : String :=
  if j.kind = .cross then s!"CROSS JOIN {j.table}"
  else s!"{j.kind.word} JOIN {j.table} ON {j.first} {j.operator} {j.second}"

inductive Order where
  | by (column : String) (descending : Bool)
  | random

def Order.text : Order → String
  | .by column descending => column ++ (if descending then " DESC" else " ASC")
  | .random => "RAND()"

/-- A linking table whose columns are selected under the alias and gathered there. -/
structure Pivot where
  table : String
  label : Value
  columns : List Value

/-- Which rows of a soft-deleting model a query reads. -/
inductive Trashed where
  | hidden
  | included
  | only
deriving DecidableEq, Inhabited

def Trashed.word : Trashed → String
  | hidden => "default"
  | included => "with"
  | only => "only"

/-- What a select needs to know of its model. -/
structure Source where
  model : ModelId
  name : String
  table : String
  connection : Value
  softDeletes : Bool
deriving Inhabited

/-- Names of columns and tables are values: whoever gives one that is no text hears of it when the
select is written. -/
structure Select where
  source : Source
  /-- Stands in for the table of the model, unless it is empty or null. -/
  table : Value
  columns : List Value
  distinct : Bool
  joins : List Join
  conditions : List Clause
  grouping : List Value
  having : List Clause
  orders : List Order
  limit : Value
  offset : Value
  trashed : Trashed
  /-- Values of the placeholders among the columns. -/
  bindings : List Value
  pivot : Option Pivot

namespace Select

/-- All columns of all rows. -/
def all (source : Source) (table : Value) : Select where
  source := source
  table := table
  columns := [.text "*"]
  distinct := false
  joins := []
  conditions := []
  grouping := []
  having := []
  orders := []
  limit := .null
  offset := .null
  trashed := .hidden
  bindings := []
  pivot := none

/-- The table that is read. -/
def from_ (q : Select) : String := if q.table.truthy then q.table.shown else q.source.table

/-- The condition that keeps deleted rows away, or all but them. -/
def deletionScope (q : Select) (table : String) : List Clause :=
  if !q.source.softDeletes then []
  else match q.trashed with
    | .hidden => [.leaf .and (.null false (table ++ ".deleted_at"))]
    | .only => [.leaf .and (.null true (table ++ ".deleted_at"))]
    | .included => []

/-- Whether a sibling past the first is joined by OR. -/
def hasAlternative (conditions : List Clause) : Bool :=
  (conditions.drop 1).any fun c => c.junction == .or

/-- The root conditions and the deletion scope; a list with an alternative is set in parentheses, so
that the scope applies to the whole of it. -/
def whereList (q : Select) (table : String) : List Clause :=
  let scope := q.deletionScope table
  if !scope.isEmpty && hasAlternative q.conditions then
    .group .and false q.conditions :: scope
  else q.conditions ++ scope

/-- A clause after its keyword, if there is anything to say. -/
def clause (keyword : String) (conditions : List Clause) : Fragment :=
  let compiled := Clause.compile conditions
  if compiled.text.isEmpty then .empty else .plain s!" {keyword} " ++ compiled

/-- Names with commas between them; all of them have to be texts. -/
def listed (names : List Value) : Except Error String :=
  match names.mapM Value.asText? with
  | some texts => .ok (", ".intercalate texts)
  | none => .error .badType

/-- The select without ordering and limits, its columns and its grouping being written already. -/
def bodyOf (q : Select) (columns grouping : String) : Fragment :=
  let distinct := if q.distinct then "DISTINCT " else ""
  ⟨s!"SELECT {distinct}{columns} FROM {q.from_}", q.bindings⟩ ++
    .concat (q.joins.map fun j => .plain (" " ++ j.text)) ++
    clause "WHERE" (q.whereList q.from_) ++
    .plain (if q.grouping.isEmpty then "" else " GROUP BY " ++ grouping) ++
    clause "HAVING" q.having

/-- The select without ordering and limits. -/
def body (q : Select) : Except Error Fragment := do
  return q.bodyOf (← listed q.columns) (← listed q.grouping)

/-- A limit or an offset as a number of rows: a fraction is cut off and a text is read. -/
def rowCount : Value → Except Error Int
  | .bool b => .ok (if b then 1 else 0)
  | .int i => .ok i
  | .float (.infinite _) => .error .boundless
  | .float x => match x.truncate? with
    | some i => .ok i
    | none => .error .badValue
  | .text s => match Numeral.int? s with
    | some i => .ok i
    | none => .error .badValue
  | _ => .error .badType

def bound (keyword : String) (count : Value) : Except Error String := do
  if count.isNull then return ""
  match Numeral.written? (← rowCount count) with
  | some digits => return s!" {keyword} {digits}"
  | none => throw .badValue

/-- The ordering and the limits. -/
def tail (q : Select) : Except Error String := do
  let ordering := if q.orders.isEmpty then ""
    else " ORDER BY " ++ ", ".intercalate (q.orders.map Order.text)
  let limit ← bound "LIMIT" q.limit
  let offset ← bound "OFFSET" q.offset
  return ordering ++ limit ++ offset

/-- The select alone, with its ordering and limits. -/
def compile (q : Select) : Except Error Fragment := do
  let body ← q.body
  return body ++ .plain (← q.tail)

end Select

/-- A select united with a statement; `all` keeps rows that are there already. -/
structure Branch where
  all : Bool
  select : Select

structure Statement where
  select : Select
  branches : List Branch

namespace Statement

def branchFragment (b : Branch) : Except Error Fragment :=
  b.select.body.map (.plain (if b.all then " UNION ALL " else " UNION ") ++ ·)

/-- The whole statement, before the guard. -/
def compile (s : Statement) : Except Error Fragment := do
  let body ← s.select.body
  let branches ← s.branches.mapM branchFragment
  return body ++ .concat branches ++ .plain (← s.select.tail)

/-- The whole statement past the guard; `context` names what asked for it. -/
def checked (s : Statement) (context : String) : Except Error Fragment := do
  let compiled ← s.compile
  Guard.checkStatement compiled.text context
  return compiled

/-- Whatever is handed out has passed the guard. -/
theorem checkStatement_of_checked {s : Statement} {context : String} {f : Fragment}
    (h : s.checked context = .ok f) : Guard.checkStatement f.text context = .ok () := by
  unfold checked at h
  cases hc : s.compile with
  | error e => simp [hc, bind, Except.bind] at h
  | ok g =>
    cases hg : Guard.checkStatement g.text context with
    | error e => simp [hc, hg, bind, Except.bind] at h
    | ok u => simp_all [bind, Except.bind, pure, Except.pure]

/-- A value written into the text of a statement: a text in single quotes, each quote in
it doubled, and whatever else as it is shown. -/
def literal (shown : Value → String) : Value → List Char
  | .text s => '\'' :: s.toList.flatMap (fun c => if c = '\'' then ['\'', '\''] else [c]) ++ ['\'']
  | .null => "NULL".toList
  | v => (shown v).toList

/-- The text with its first placeholder replaced. -/
def replaceFirst (literal : List Char) : List Char → List Char
  | [] => []
  | c :: rest => if c = '?' then literal ++ rest else c :: replaceFirst literal rest

/-- The text with each value put for the first placeholder left, those in earlier
values included. -/
def inlined (shown : Value → String) (f : Fragment) : String :=
  String.ofList (f.values.foldl (fun text v => replaceFirst (literal shown v) text) f.text.toList)

end Statement

end Relata.Sql
