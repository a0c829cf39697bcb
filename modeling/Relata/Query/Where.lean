import Relata.Query.Basic
import Relata.Query.Methods
import Relata.Sql.Written

/-!
Builder steps that need nothing but the query itself: columns, joins, conditions, grouping, ordering
and limits.
-/

namespace Relata.Build

open Sql (Clause Junction Join JoinKind Order Pivot Test)

/-- The list of conditions that a step adds to. -/
inductive Target where
  | conditions
  | having

def addTo (target : Target) (c : Clause) : Build Unit :=
  modifySelect fun s => match target with
    | .conditions => { s with conditions := s.conditions ++ [c] }
    | .having => { s with having := s.having ++ [c] }

def addCondition (c : Clause) : Build Unit := addTo .conditions c

/-- Fails if a name is no text. -/
def checkNames (issues : List Issue) : Build Unit :=
  if issues.isEmpty then pure () else throw (.invalid issues)

/-- Values given for placeholders; none are the same as an empty list. -/
def bindingsOf (v : Value) : Build (List Value) := if v.truthy then itemsOf v else pure []

def equalWords : List String := ["=", "is", "IS"]
def unequalWords : List String := ["!=", "<>", "is not", "IS NOT"]

/-- The test that compares a column with a value: a value alone is compared by equality, and
equality with nothing is a test for null. -/
def comparison (junction : Junction) (column : Value) (operator value : Option Value) :
    Build Clause := do
  let (operator, value) ← match operator, value with
    | _, some v => pure (operator.getD .null, v)
    | some v, none => pure (.text "=", v)
    | none, none => throw (.valueNeeded column.shown)
  let word := operator.asText?.getD ""
  if value.isNull && equalWords.contains word then
    checkNames (Sql.nameIssues "column" column)
    return .leaf junction (.null false column.shown)
  if value.isNull && unequalWords.contains word then
    checkNames (Sql.nameIssues "column" column)
    return .leaf junction (.null true column.shown)
  checkNames (Sql.nameIssues "column" column ++ Sql.nameIssues "operator" operator)
  return .leaf junction (.compare column.shown operator.shown value)

/-- The operator of the opposite comparison. -/
def negatedOperator? (operator : String) : Option String :=
  [("=", "!="), ("!=", "="), ("<>", "="), ("<", ">="), ("<=", ">"), (">", "<="), (">=", "<"),
    ("LIKE", "NOT LIKE"), ("NOT LIKE", "LIKE")].lookup operator

/-- A raw condition past the guard. -/
def addRaw (target : Target) (junction : Junction) (text bindings : Value) (context : String) :
    Build Unit := do
  let bindings ← bindingsOf bindings
  addTo target (← ofExcept (Clause.raw junction text bindings context))

/-- A raw condition made by the builder itself, past the guard like any other. -/
def addFragment (junction : Junction) (f : Sql.Fragment) (context : String) : Build Unit := do
  addCondition (← ofExcept (Clause.raw junction (.text f.text) f.values context))

def whereIn (junction : Junction) (negated : Bool) (column values : Value) : Build Unit := do
  let items ← itemsOf values
  checkNames (Sql.nameIssues "column" column)
  addCondition (.leaf junction (.among negated column.shown items))

def whereNull (junction : Junction) (negated : Bool) (column : Value) : Build Unit := do
  checkNames (Sql.nameIssues "column" column)
  addCondition (.leaf junction (.null negated column.shown))

def whereBetween (junction : Junction) (negated : Bool) (column values : Value) : Build Unit := do
  match ← itemsOf values with
  | [low, high] =>
    checkNames (Sql.nameIssues "column" column)
    addCondition (.leaf junction (.between negated column.shown low high))
  | items => throw (.notAPair items.length)

/-- Compares two columns; an operator alone is the second column, compared by equality. -/
def whereColumn (junction : Junction) (first operator : Value) (second : Option Value) :
    Build Unit := do
  let (operator, second) := match second with
    | some s => (operator.shown, s.shown)
    | none => ("=", operator.shown)
  addFragment junction (.plain s!"{first.shown} {operator} {second}") "where_column"

/-- A group in which one comparison stands for each column. -/
def whereEach (every : Bool) (columns operator value : Value) : Build Unit := do
  let columns ← itemsOf columns
  let children : List Clause ← columns.mapM fun column => do
    checkNames (Sql.nameIssues "column" column ++ Sql.nameIssues "operator" operator)
    return .leaf (if every then .and else .or) (.compare column.shown operator.shown value)
  addCondition (.group .and false children)

def join (kind : JoinKind) (table first operator second : Value) : Build Unit := do
  let comparison : Record := if kind = .cross then []
    else [("first", first), ("operator", operator), ("second", second)]
  let fields := ("kind", .text kind.name) :: ("table", table) :: comparison
  let join ← ofExcept (Join.read fields).toExcept
  modifySelect fun s => { s with joins := s.joins ++ [join] }

/-- Selects columns, those of each list given among them; without any, all of them. -/
def select (values : List Value) : Build Unit :=
  let columns := Value.flatten values
  modifySelect fun s => { s with columns := if columns.isEmpty then [.text "*"] else columns }

def addSelect (values : List Value) : Build Unit :=
  modifySelect fun s => { s with columns := s.columns ++ Value.flatten values }

/-- Passes what is to be selected as it stands. Nothing at all passes; a list or a dictionary is
searched for a semicolon before it is refused for what it is. -/
def checkExpression (text : Value) : Except Error Unit :=
  match text with
  | .text s => Guard.checkPiece s "select_raw"
  | v =>
    if !v.truthy then .ok ()
    else if v.holds (.text ";") = some true then Guard.checkPiece ";" "select_raw"
    else .error .badType

/-- Adds an expression past the guard, with the values of its placeholders. -/
def selectRaw (text bindings : Value) : Build Unit := do
  ofExcept (checkExpression text)
  modifySelect fun q => { q with columns := q.columns ++ [text] }
  let bindings ← bindingsOf bindings
  modifySelect fun q => { q with bindings := q.bindings ++ bindings }

def groupBy (values : List Value) : Build Unit :=
  modifySelect fun s => { s with grouping := s.grouping ++ Value.flatten values }

def orderBy (column direction : Value) : Build Unit := do
  match direction with
  | .text direction =>
    let direction := Text.lowercase direction
    if !(direction == "asc" || direction == "desc") then throw (.badDirection direction)
    checkNames (Sql.nameIssues "column" column)
    modifySelect fun s => { s with orders := s.orders ++ [.by column.shown (direction == "desc")] }
  | _ => throw .noAttribute

/-- Drops the ordering; a column given orders anew. -/
def reorder (column direction : Value) : Build Unit := do
  modifySelect fun s => { s with orders := [] }
  if column.truthy then orderBy column direction

def limit (count : Value) : Build Unit := modifySelect fun s => { s with limit := count }

def offset (count : Value) : Build Unit := modifySelect fun s => { s with offset := count }

/-- The number of rows before a page of a given size, the first page having number one. -/
def rowsBefore (page size : Value) : Except Error Value := do
  (← page.previous).orZero.times size

def forPage (page size : Value) : Build Unit := do
  offset (← ofExcept (rowsBefore page size))
  limit size

def setTrashed (mode : Sql.Trashed) (method : String) : Build Unit := do
  let q ← get
  if mode != .hidden && !q.select.source.softDeletes then
    throw (.noSoftDeletes q.select.source.name method)
  modifySelect fun s => { s with trashed := mode }

/-- Cancels the loading of relations. -/
def without (values : List Value) : Build Unit := do
  let removed := Value.flatten values
  removed.forM checkKey
  (← get).loads.paths.forM checkKey
  modifyLoads (·.remove removed)

def withOnly (relations : Value) : Build Unit := do
  modifyLoads fun _ => .empty
  with_ relations .null

/-- The pivot table of the query; one that is set already stays. -/
def setPivotSource (table label : Value) : Build Unit := do
  if (← get).select.pivot.isNone then
    checkNames (Sql.nameIssues "table" table ++ Sql.nameIssues "alias" label)
    modifySelect fun s => { s with pivot := some ⟨table.shown, label, []⟩ }

def setPivotAlias (label : Value) : Build Unit :=
  modifySelect fun s => { s with pivot := s.pivot.map fun p => { p with label := label } }

/-- Selects a column of the pivot table under the alias. -/
def selectPivot (pivot : Pivot) (column : Value) : Build Unit :=
  let expression := s!"{pivot.table}.{column.shown} AS {pivot.label.shown}__{column.shown}"
  modifySelect fun s =>
    { s with
      pivot := some { pivot with columns := pivot.columns ++ [column] }
      columns := s.columns ++ [.text expression] }

/-- Selects columns of the pivot table under its alias, each once. -/
def withPivot (columns : List Value) : Build Unit :=
  columns.forM fun column => do
    match (← get).select.pivot with
    | none => pure ()
    | some pivot =>
      if column.truthy && !pivot.columns.any column.same then selectPivot pivot column

end Relata.Build
