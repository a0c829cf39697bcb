import Relata.Query.Methods
import Relata.Store.Env

/-!
Reading along a path. An item of a path takes a member of a list or reads an attribute. On the way
it may pass through what is no value by itself, such as the conditions of a query.
-/

namespace Relata

namespace Glimpse

/-- An attribute of a query: one of its parts or one of its methods. -/
def ofQuery (q : Query) (name : String) : Except Error Glimpse :=
  match q.parts.lookup name with
  | some found => .ok found
  | none => if (Method.ofName? name).isSome then .ok (.value Env.method) else .error .noAttribute

/-- An attribute of a declared relation. -/
def ofRelation (owner : ModelId) (own : String) (d : Option Declaration) (name : String) :
    Except Error Glimpse :=
  match name, d.map Declaration.form with
  | "name", _ => .ok (.value (.text own))
  | "owner", _ => .ok (.value (.model owner))
  | "fields", some (.direct form) => .ok (.value (.dict (form.map fun (k, v) => (.text k, v))))
  | "fields", some (.composed _ _) => .ok (.value (.dict []))
  | "through_relation", some (.composed first _) => .ok (.value first)
  | "final_relation", some (.composed _ final) => .ok (.value final)
  | "describe", _ | "with_pivot", _ | "as_", _ => .ok (.value Env.method)
  | name, _ =>
    if name.toList.head? = some '_' then .error .noAttribute
    else if (Method.ofName? name).isSome then .ok (.value Env.method)
    else .error (.unknownChain name)

private def ofMoment (m : Moment) (name : String) : Except Error Glimpse :=
  let number (n : Nat) : Except Error Glimpse := .ok (.value (.int n))
  match name with
  | "year" => number m.year
  | "month" => number m.month
  | "day" => number m.day
  | "hour" => number m.hour
  | "minute" => number m.minute
  | "second" => number m.second
  | "microsecond" => number m.micro
  | _ => .error .noAttribute

/-- The member at a place, counted from the end if it is below zero. -/
def memberAt (items : List α) (i : Int) : Except Error α :=
  let place := if i < 0 then i + items.length else i
  if place < 0 then .error .badInput
  else match items[place.toNat]? with
    | some item => .ok item
    | none => .error .badInput

end Glimpse

namespace Env

/-- An attribute of a value. -/
def glimpse (env : Env) (v : Value) (name : String) : Except Error Glimpse :=
  match v with
  | .object _ => (env.requireProperty v name).map .value
  | .model m => match (env.catalog.model? m).bind fun m => env.catalog.declarer? m name with
    | some owner => .ok (.value (.relation owner name))
    | none => if methodNames.contains name then .ok (.value method) else .error .noAttribute
  | .query id => match env.queries[id]? with
    | some q => Glimpse.ofQuery q name
    | none => .error .noAttribute
  | .registry id => match name with
    | "max_entries" => .ok (.value (env.registryOf id).marks.limit)
    | "_in_flight" =>
      .ok (.value (.dict ((env.registryOf id).flights.entries.map fun (key, t) => (key, .task t))))
    | _ => .error .noAttribute
  | .relation owner own => Glimpse.ofRelation owner own (env.declaration? owner own) name
  | .time m => Glimpse.ofMoment m name
  | _ => .error .noAttribute

/-- A member of a value. -/
def member (env : Env) (v : Value) (i : Int) : Except Error Value :=
  match env.members? v, v with
  | some items, _ => Glimpse.memberAt items i
  | none, .text s => (Glimpse.memberAt s.toList i).map fun c => .text (String.ofList [c])
  | none, .dict entries => match Value.lookup? (.int i) entries with
    | some v => .ok v
    | none => .error .noKey
  | none, _ => .error .badType

/-- One item of a path. -/
def follow (env : Env) : Glimpse → PathItem → Except Error Glimpse
  | .value v, .index i => (env.member v i).map .value
  | .value v, .property name => env.glimpse v name
  | .query q, .property name => Glimpse.ofQuery q name
  | .parts items, .index i => Glimpse.memberAt items i
  | .part attributes, .property name => match attributes.lookup name with
    | some g => .ok g
    | none => .error .noAttribute
  | .parts _, .property _ => .error .noAttribute
  | _, .index _ => .error .badType

/-- What a variable and a path behind it lead to. -/
def read (env : Env) (name : String) (path : List PathItem) : Except Error Glimpse :=
  match env.stored.lookup name with
  | some v => path.foldlM env.follow (.value v)
  | none => .error .badInput

end Env

end Relata
