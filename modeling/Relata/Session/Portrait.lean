import Relata.Portrait
import Relata.Query.Related
import Relata.Store.World

/-!
Portraying values: what they refer to is looked up in the world as it is. A query is portrayed by
the statement it stands for, or by the error that it has in place of one.
-/

namespace Relata.Session

/-- How the things that a value refers to are portrayed. -/
structure Portrayer where
  model : ModelId → Portrait
  object : ObjectId → Portrait
  collection : CollectionId → Portrait
  query : QueryId → Portrait
  draft : Value → List Call → Portrait

namespace Portrayer

mutual

def value (p : Portrayer) : Value → Portrait
  | .null => .null
  | .bool b => .bool b
  | .int i => .int i
  | .float x => .float x
  | .text s => .text s
  | .time m => .time m
  | .list items | .tuple items => .list (p.values items)
  | .dict entries => .dict (p.entries entries)
  | .model id => p.model id
  | .object id => p.object id
  | .collection id => p.collection id
  | .query id => p.query id
  | .draft base calls => p.draft base calls
  | .registry _ => .registry
  | .tagMap _ => .tagMap
  | .relation owner name => match p.model owner with
    | .model key => .relation key name
    | _ => .relation "" name
  | .failure e => .failure e
  | .portrait made => made
  | .recipe _ _ => .recipe
  | .task _ | .parameter _ | .variable _ _ | .thrown _ => .unseen

def values (p : Portrayer) : List Value → List Portrait
  | [] => []
  | v :: rest => p.value v :: p.values rest

def entries (p : Portrayer) : List (Value × Value) → List (Portrait × Portrait)
  | [] => []
  | (k, v) :: rest => (p.value k, p.value v) :: p.entries rest

end

end Portrayer

private def keyOf (env : Env) (m : ModelId) : String := ((env.catalog.model? m).map (·.key)).getD ""

/-- A key as the name of a part. -/
private def keyText (key : Value) : String :=
  match key with
  | .text name => name
  | .null => "null"
  | .bool b => if b then "true" else "false"
  | key => key.shown

/-- The portrayer of what `env` holds, `depth` levels deep; `path` are the objects whose portraits
are being made. -/
def portrayer (env : Env) : Nat → List ObjectId → Portrayer
  | 0, _ =>
    { model := fun m => .model (keyOf env m)
      object := fun _ => .unseen
      collection := fun _ => .unseen
      query := fun _ => .unseen
      draft := fun _ _ => .unseen }
  | depth + 1, path =>
    let inner := portrayer env depth path
    let portrayObject (id : ObjectId) : Portrait :=
      match env.object? id with
      | none => .unseen
      | some o =>
        if path.contains id then .again (keyOf env o.model)
        else
          let p := portrayer env depth (id :: path)
          let row (r : Row) := r.map fun (name, v) => (name, p.value v)
          let relations : Row := o.loadedRelations.map fun (name, v) => (keyText name, v)
          .object (keyOf env o.model) (row o.fields) (row o.extra) (row relations)
    let portrayQuery (q : Query) : Portrait :=
      match q.statement.checked "check" with
      | .ok f => .statement f.text (inner.values f.values)
      | .error e => .refused e
    { model := fun m => .model (keyOf env m)
      object := portrayObject
      collection := fun c => .list (((env.collections[c]?).getD []).map portrayObject)
      query := fun q => match env.queries[q]? with
        | some q => portrayQuery q
        | none => .unseen
      draft := fun base calls => match env.draft base calls with
        | .ok (.other q) => portrayQuery q
        | .ok (.value v) => inner.value v
        | .ok .self => .unseen
        | .error e => .refused e }

/-- How deep a portrait may go. -/
def portraitDepth : Nat := 500

/-- The portrait of a value. -/
def portray (env : Env) (v : Value) : Portrait := (portrayer env portraitDepth []).value v

/-- The statement of a query, or why it has none. -/
def portrayStatement (env : Env) (q : Query) : Portrait :=
  match q.statement.checked "check" with
  | .ok f => .statement f.text ((portrayer env portraitDepth []).values f.values)
  | .error e => .refused e

/-- What a query is made of, as a dictionary. -/
def overview (env : Env) (q : Query) : Value :=
  let orFailure (r : Except Error Value) : Value := match r with
    | .ok v => v
    | .error e => .failure e
  let pivot : Value := match q.select.pivot with
    | none => .null
    | some p => .dict [(.text "table", .text p.table), (.text "alias", p.label),
        (.text "columns", .list p.columns)]
  let refined := (q.loads.callbacks.map (·.1)).mergeSort fun a b => !(b.shown < a.shown)
  .dict [
    (.text "columns", .list q.select.columns),
    (.text "bare", orFailure (q.select.body.map Build.pair)),
    (.text "raw_sql", orFailure ((q.statement.checked "to_raw_sql").map fun f =>
      .text (Sql.Statement.inlined env.shown f))),
    (.text "select_bindings", .list q.select.bindings),
    (.text "limit", q.select.limit),
    (.text "offset", q.select.offset),
    (.text "trashed", .text q.select.trashed.word),
    (.text "with", .list q.loads.paths),
    (.text "with_columns", .dict q.loads.columns),
    (.text "with_callbacks", .list refined),
    (.text "pivot", pivot)]

end Relata.Session
