import Relata.Store.World

/-!
Fetching: a query is run, each row becomes an object, and the relations that the query asks for are
loaded on the objects before they are handed out as a collection. How relations are loaded is left
open here; it is a parameter of every function that fetches.
-/

namespace Relata

/-- How relations are to be loaded: column restrictions and refinements by path, the registry to be
marked, whether to fetch what is loaded already, and how many keys one statement may ask for. -/
structure Loader where
  columns : List (Value × Value)
  callbacks : List (Value × Value)
  registry : Value
  force : Bool
  chunkSize : Value

/-- The number of keys that one statement may ask for unless it is told. -/
def Loader.defaultChunk : Value := .int 1000

def Loader.ofRequest (r : LoadRequest) (registry : Value) (force : Bool) : Loader :=
  ⟨r.columns, r.callbacks, registry, force, Loader.defaultChunk⟩

/-- A way of loading paths of relations on objects. -/
abbrev LoadPaths (τ : Type) := Loader → List Value → List Value → Deed τ Unit

namespace Query

variable {τ : Type}

/-- The columns whose names begin with the alias of the pivot, gathered under it. The alias has to
be a key then. -/
def gatherPivot (q : Query) (row : Row) : Except Error (List (Value × Value)) :=
  let whole : List (Value × Value) := row.map fun (name, v) => (.text name, v)
  match q.select.pivot with
  | none => .ok whole
  | some pivot =>
    if pivot.columns.isEmpty then .ok whole
    else
      let mark := (pivot.label.shown ++ "__").toList
      let isPivot (name : String) : Bool := mark.isPrefixOf name.toList
      let gathered := (row.filter (isPivot ·.1)).map fun (name, v) =>
        (Value.text (String.ofList (name.toList.drop mark.length)), v)
      let others : List (Value × Value) :=
        (row.filter (!isPivot ·.1)).map fun (name, v) => (.text name, v)
      if gathered.isEmpty then .ok others
      else if !pivot.label.isKey then .error .badType
      else .ok (Value.put others pivot.label (.dict gathered))

/-- What a row becomes. -/
def entity (q : Query) (l : Lookup) (row : Row) : Except Error Entity :=
  match l.catalog.model? q.select.source.model with
  | some m => q.gatherPivot row >>= m.hydrate
  | none => .error .noAttribute

/-- The object of one row. -/
def hydrate (q : Query) (row : Row) : Deed τ ObjectId := do
  let entity ← Act.getsExcept fun w => q.entity w.toLookup row
  Deed.newObject entity

/-- Runs the query and answers its rows as they are. -/
def rows (q : Query) : Deed τ (List Row) := do
  let f ← Act.ofExcept (q.statement.checked "rows")
  Deed.execute q.select.source.connection f.text f.values

/-- The objects that a query yields, as one collection. -/
structure Fetched where
  collection : CollectionId
  members : List ObjectId
  /-- The values of the column that was taken off each row, if one was. -/
  keys : List Value

/-- Takes the key column off a row, if there is one. -/
def splitKey (keyColumn : Value) (row : Row) : Except Error (Value × Row) :=
  match keyColumn with
  | .null => .ok (.null, row)
  | .text column => .ok ((row.lookup column).getD .null, row.filter (·.1 != column))
  | column => if row.isEmpty || column.isKey then .ok (.null, row) else .error .badType

/-- Runs the query. The key column, if there is one, is taken off each row before it becomes an
object. -/
def fetch (load : LoadPaths τ) (q : Query) (keyColumn : Value) (registry : Value) :
    Deed τ Fetched := do
  let f ← Act.ofExcept (q.statement.checked "get")
  let rows ← Deed.execute q.select.source.connection f.text f.values
  let made ← rows.mapM fun row => do
    let (key, bare) ← Act.ofExcept (splitKey keyColumn row)
    return (key, ← q.hydrate bare)
  let members := made.map (·.2)
  if !q.loads.paths.isEmpty && !members.isEmpty then
    load (.ofRequest q.loads registry false) (members.map .object) q.loads.paths
  let collection ← Deed.adopt members
  return ⟨collection, members, if keyColumn.isNull then [] else made.map (·.1)⟩

end Query

end Relata
