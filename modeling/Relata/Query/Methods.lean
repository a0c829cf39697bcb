import Relata.Relation.Kind
import Relata.Signature
import Relata.Sql.Select

/-!
The calls that a query answers to, by name, with their parameters. Calls that differ only in a
junction, a negation or the like are one method with that as an argument. A relation declaration
records the calls listed here and refuses all others.
-/

namespace Relata

open Sql (Junction JoinKind Trashed)

/-- What running a query yields. -/
inductive Running where
  | rows
  | get
  | getWithKeys
  | first (orFail : Bool)
  | find (orFail : Bool)
  | pluck
  | value
  | aggregate
  | count
  | aggregateOf (function : String)
  | exists_ (negated : Bool)
  | chunk
  | each
deriving DecidableEq

inductive Method where
  | table
  | select
  | addSelect
  | selectRaw
  | distinct
  | join (kind : JoinKind)
  | where_ (junction : Junction)
  | whereNot
  | whereIn (junction : Junction) (negated : Bool)
  | whereNull (junction : Junction) (negated : Bool)
  | whereBetween (junction : Junction) (negated : Bool)
  | whereRaw (junction : Junction)
  | whereColumn (junction : Junction)
  | whereLike (negated : Bool)
  /-- Some column, or every one, satisfies a comparison. -/
  | whereEach (every : Bool)
  | wherePart (function : String)
  | groupBy
  | having (junction : Junction)
  | havingRaw
  | orderBy
  | orderByDescending
  | byAge (newestFirst : Bool)
  | randomOrder
  | reorder
  | limit
  | offset
  | forPage
  | union (all : Bool)
  | trashed (mode : Trashed)
  | with_
  | without
  | withOnly
  | withWhereHas
  | withCount
  | whereHas (junction : Junction)
  | has (junction : Junction)
  | doesntHave (junction : Junction)
  | whereRelation (junction : Junction)
  | whereBelongsTo
  | whereHasMorph (junction : Junction)
  | whereMorphedTo
  | ofMany
  | extremeOfMany (extremum : Extremum)
  | setPivotSource
  | pivotAlias
  | withPivot
  | when (expected : Bool)
  | tap
  | scope
  | clone
  | compile
  | statement
  | toSql
  | getBindings
  | toRawSql
  | eagerLoader
  | running (r : Running)
deriving DecidableEq

namespace Method

/-- The methods with their names. -/
def named : List (String × Method) :=
  [("table", table), ("select", select), ("add_select", addSelect), ("select_raw", selectRaw),
    ("distinct", distinct), ("join", join .inner), ("left_join", join .left),
    ("right_join", join .right), ("cross_join", join .cross),
    ("where", where_ .and), ("or_where", where_ .or), ("where_not", whereNot),
    ("where_in", whereIn .and false), ("where_not_in", whereIn .and true),
    ("or_where_in", whereIn .or false), ("or_where_not_in", whereIn .or true),
    ("where_null", whereNull .and false), ("where_not_null", whereNull .and true),
    ("or_where_null", whereNull .or false), ("or_where_not_null", whereNull .or true),
    ("where_between", whereBetween .and false), ("where_not_between", whereBetween .and true),
    ("or_where_between", whereBetween .or false), ("or_where_not_between", whereBetween .or true),
    ("where_raw", whereRaw .and), ("or_where_raw", whereRaw .or),
    ("where_column", whereColumn .and), ("or_where_column", whereColumn .or),
    ("where_like", whereLike false), ("where_not_like", whereLike true),
    ("where_any", whereEach false), ("where_all", whereEach true),
    ("where_date", wherePart "DATE"), ("where_month", wherePart "MONTH"),
    ("where_year", wherePart "YEAR"), ("where_day", wherePart "DAY"),
    ("where_time", wherePart "TIME"),
    ("group_by", groupBy), ("having", having .and), ("or_having", having .or),
    ("having_raw", havingRaw),
    ("order_by", orderBy), ("order_by_desc", orderByDescending), ("latest", byAge true),
    ("oldest", byAge false), ("in_random_order", randomOrder), ("reorder", reorder),
    ("limit", limit), ("take", limit), ("offset", offset), ("skip", offset), ("for_page", forPage),
    ("union", union false), ("union_all", union true),
    ("with_trashed", trashed .included), ("only_trashed", trashed .only),
    ("without_trashed", trashed .hidden),
    ("with_", with_), ("without", without), ("with_only", withOnly),
    ("with_where_has", withWhereHas), ("with_count", withCount),
    ("where_has", whereHas .and), ("or_where_has", whereHas .or),
    ("has", has .and), ("or_has", has .or),
    ("doesnt_have", doesntHave .and), ("where_doesnt_have", doesntHave .and),
    ("or_doesnt_have", doesntHave .or), ("or_where_doesnt_have", doesntHave .or),
    ("where_relation", whereRelation .and), ("or_where_relation", whereRelation .or),
    ("where_belongs_to", whereBelongsTo), ("where_has_morph", whereHasMorph .and),
    ("or_where_has_morph", whereHasMorph .or), ("where_morphed_to", whereMorphedTo),
    ("of_many", ofMany),
    ("latest_of_many", extremeOfMany .max), ("oldest_of_many", extremeOfMany .min),
    ("set_pivot_source", setPivotSource), ("as_", pivotAlias), ("with_pivot", withPivot),
    ("when", when true), ("unless", when false), ("tap", tap), ("scope", scope),
    ("clone", clone), ("compile", compile), ("statement", statement), ("to_sql", toSql),
    ("get_bindings", getBindings), ("to_raw_sql", toRawSql), ("eager_loader", eagerLoader),
    ("rows", running .rows), ("get", running .get), ("get_with_keys", running .getWithKeys),
    ("first", running (.first false)), ("first_or_fail", running (.first true)),
    ("find", running (.find false)), ("find_or_fail", running (.find true)),
    ("pluck", running .pluck), ("value", running .value), ("aggregate", running .aggregate),
    ("count", running .count), ("sum", running (.aggregateOf "SUM")),
    ("avg", running (.aggregateOf "AVG")), ("min", running (.aggregateOf "MIN")),
    ("max", running (.aggregateOf "MAX")), ("exists", running (.exists_ false)),
    ("doesnt_exist", running (.exists_ true)), ("chunk", running .chunk), ("each", running .each)]

def ofName? (name : String) : Option Method := named.lookup name

/-- The parameters of a method, or none if it takes any number of positional arguments. -/
def signature : Method → Option Signature
  | table => some [.needed "name"]
  | select | addSelect | groupBy | without | withPivot | scope => none
  | selectRaw | whereRaw _ | havingRaw => some [.needed "sql", .orNull "bindings"]
  | distinct | randomOrder | trashed _ | clone | toSql | getBindings | toRawSql => some []
  | join .cross => some [.needed "table"]
  | join _ => some [.needed "table", .needed "first", .needed "operator", .needed "second"]
  | where_ _ | whereNot | having _ =>
    some [.needed "column", .orAbsent "operator", .orAbsent "value"]
  | whereIn _ _ | whereBetween _ _ => some [.needed "column", .needed "values"]
  | whereNull _ _ | orderByDescending => some [.needed "column"]
  | whereColumn _ => some [.needed "first", .needed "operator", .orAbsent "second"]
  | whereLike _ => some [.needed "column", .needed "value"]
  | whereEach _ => some [.needed "columns", .needed "operator", .needed "value"]
  | wherePart _ => some [.needed "column", .needed "operator", .orAbsent "value"]
  | orderBy => some [.needed "column", .orText "direction" "asc"]
  | byAge _ | extremeOfMany _ => some [.orText "column" "created_at"]
  | reorder => some [.orNull "column", .orText "direction" "asc"]
  | limit => some [.needed "limit"]
  | offset => some [.needed "offset"]
  | forPage => some [.needed "page", ⟨"per_page", .default (.int 15)⟩]
  | union _ => some [.needed "query"]
  | with_ => some [.needed "relations", .orNull "callback"]
  | withOnly | withCount => some [.needed "relations"]
  | withWhereHas | doesntHave _ => some [.needed "relation", .orNull "callback"]
  | whereHas _ =>
    some [.needed "relation", .orNull "callback", .orNull "operator", .orNull "count"]
  | has _ => some [.needed "relation", .orText "operator" ">=", ⟨"count", .default (.int 1)⟩]
  | whereRelation _ =>
    some [.needed "relation", .needed "column", .orAbsent "operator", .orAbsent "value"]
  | whereBelongsTo => some [.needed "related", .orNull "relation"]
  | whereHasMorph _ => some [.needed "relation", .needed "types", .orNull "callback"]
  | whereMorphedTo => some [.needed "relation", .needed "instance"]
  | ofMany => some [.needed "column", .needed "aggregate"]
  | setPivotSource => some [.needed "table", .orText "alias" "pivot"]
  | pivotAlias => some [.needed "alias"]
  | when _ => some [.needed "condition", .needed "callback", .orNull "default"]
  | tap => some [.needed "callback"]
  | compile => some [⟨"include_order_limit", .default (.bool true)⟩]
  | statement => some [.orText "context" "statement"]
  | eagerLoader => some [.orNull "registry"]
  | running .rows | running (.first _) | running (.exists_ _) => some []
  | running .count => some [.orText "column" "*"]
  | running .get => some [.orNull "registry"]
  | running .getWithKeys => some [.needed "key_column", .orNull "registry"]
  | running (.find _) => some [.needed "identifier"]
  | running .pluck => some [.needed "column", .orNull "key"]
  | running .value | running (.aggregateOf _) => some [.needed "column"]
  | running .aggregate => some [.needed "function", .orText "column" "*"]
  | running .chunk => some [.needed "size", .needed "callback"]
  | running .each => some [.needed "callback"]

/-- The arguments of a call to the method, one for each parameter. A scope may be named by name, if
it takes no arguments. -/
def bind (m : Method) (c : Call) : Except Error (List (Option Value)) :=
  match m.signature, m, c.args, c.named with
  | some s, _, args, named => s.bind args named
  | none, .scope, [], [("name", v)] => .ok [some v]
  | none, _, args, [] => .ok (args.map some)
  | none, _, _, _ :: _ => .error .badType

end Method

end Relata
