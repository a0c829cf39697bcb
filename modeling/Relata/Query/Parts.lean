import Relata.Query.Basic

/-!
The parts of a query as they are read: its conditions, joins, orders and branches are no values by
themselves, and reading on from them leads to values again.
-/

namespace Relata

open Sql (Clause Join Order Pivot Test)

/-- What a path leads to. -/
inductive Glimpse where
  | value (v : Value)
  | query (q : Query)
  | parts (items : List Glimpse)
  | part (attributes : List (String × Glimpse))

namespace Glimpse

private def text (s : String) : Glimpse := .value (.text s)

private def texts (names : List String) : Glimpse := .value (.list (names.map .text))

private def null : Glimpse := .value .null

private def ofTest : Test → List (String × Glimpse)
  | .compare column operator v =>
    [("column", text column), ("operator", text operator), ("value", .value v)]
  | .among _ column items => [("column", text column), ("items", .value (.list items))]
  | .null _ column => [("column", text column)]
  | .between _ column low high =>
    [("column", text column), ("low", .value low), ("high", .value high)]
  | .raw s bindings context =>
    [("fragment", text s), ("bindings", .value (.list bindings)), ("context", text context)]

mutual

/-- The parts of a condition. -/
def ofClause : Clause → Glimpse
  | .leaf junction test =>
    let f := test.fragment
    .part (("boolean", text junction.word) :: ("sql", text f.text) ::
      ("values", .value (.tuple f.values)) :: ofTest test)
  | .group junction negated children =>
    let f := Clause.fragment (.group junction negated children)
    .part [("boolean", text junction.word), ("sql", text f.text),
      ("values", .value (.tuple f.values)), ("negated", .value (.bool negated)),
      ("children", .parts (ofClauses children))]

def ofClauses : List Clause → List Glimpse
  | [] => []
  | c :: rest => ofClause c :: ofClauses rest

end

def ofJoin (j : Join) : Glimpse :=
  let side (s : String) : Glimpse := if j.kind = .cross then null else text s
  .part [("kind", text j.kind.name), ("table", text j.table), ("first", side j.first),
    ("operator", side j.operator), ("second", side j.second), ("sql", text j.text)]

def ofOrder : Order → Glimpse
  | .by column descending =>
    .part [("column", text column), ("direction", text (if descending then "desc" else "asc")),
      ("random", .value (.bool false)), ("sql", text (Order.by column descending).text)]
  | .random =>
    .part [("column", text "RAND()"), ("direction", text "asc"), ("random", .value (.bool true)),
      ("sql", text Order.random.text)]

def ofPivot (p : Pivot) : Glimpse :=
  .part [("table", text p.table), ("alias", .value p.label), ("columns", .value (.list p.columns))]

def ofBranch (branch : Bool × Query) : Glimpse :=
  .part [("query", .query branch.2), ("all", .value (.bool branch.1))]

/-- What a path leads to, as a value. What is no value by itself is one that shows nothing. -/
def asValue : Glimpse → Value
  | .value v => v
  | .parts items => .list (items.map fun _ => .portrait .unseen)
  | .query _ | .part _ => .portrait .unseen

end Glimpse

/-- What a query is made of, under the names of its parts. -/
def Query.parts (q : Query) : List (String × Glimpse) :=
  let s := q.select
  [("model", .value (.model s.source.model)),
    ("table_name", .value s.table),
    ("columns", .value (.list s.columns)),
    ("is_distinct", .value (.bool s.distinct)),
    ("joins", .parts (s.joins.map Glimpse.ofJoin)),
    ("conditions", .parts (Glimpse.ofClauses s.conditions)),
    ("group_by_columns", .value (.list s.grouping)),
    ("having_conditions", .parts (Glimpse.ofClauses s.having)),
    ("order_by_clauses", .parts (s.orders.map Glimpse.ofOrder)),
    ("limit_value", .value s.limit),
    ("offset_value", .value s.offset),
    ("unions", .parts (q.branches.map Glimpse.ofBranch)),
    ("trashed_mode", .value (.text s.trashed.word)),
    ("select_bindings", .value (.list s.bindings)),
    ("with_relations", .value (.list q.loads.paths)),
    ("with_columns", .value (.dict q.loads.columns)),
    ("with_callbacks", .value (.dict q.loads.callbacks)),
    ("pivot", (s.pivot.map Glimpse.ofPivot).getD (.value .null))]

/-- A query as it is gone through: pairs of the names and the parts. -/
def Query.pairs (q : Query) : Value :=
  .list (q.parts.map fun (name, part) => .tuple [.text name, part.asValue])

end Relata
