import Relata.Query.Path
import Relata.Schema.Catalog

/-!
Queries: a statement being built, together with the relations to load after fetching. A builder call
changes a query in place; one that fails leaves the query as it stood when the failure arose, and
the monad of builder steps keeps that query.
-/

namespace Relata

/-- A path and its columns, as a value names them. What is no text is a path of its own unless it
holds a colon or cannot be searched for one. -/
def RelationPath.parse (path : Value) : Except Error (Value × List Value) :=
  match path with
  | .text s =>
    let read := RelationPath.read s
    .ok (.text read.relation, (read.columns.getD []).map .text)
  | v => match v.holds (.text ":") with
    | some false => .ok (v, [])
    | some true => .error .noAttribute
    | none => .error .badType

/-- The relations to load, with a restriction of columns and a refinement for some of
their paths. -/
structure LoadRequest where
  paths : List Value
  columns : List (Value × Value)
  callbacks : List (Value × Value)
deriving Inhabited

namespace LoadRequest

def empty : LoadRequest := ⟨[], [], []⟩

/-- Asks for a path once. -/
def addPath (r : LoadRequest) (path : Value) : LoadRequest :=
  { r with paths := if r.paths.any path.same then r.paths else r.paths ++ [path] }

/-- Restricts a path to columns, in place of an earlier restriction. -/
def restrict (r : LoadRequest) (path columns : Value) : LoadRequest :=
  { r with columns := Value.put r.columns path columns }

/-- Refines a path, in place of an earlier refinement. -/
def refine (r : LoadRequest) (path callback : Value) : LoadRequest :=
  { r with callbacks := Value.put r.callbacks path callback }

/-- The request without the paths that `removed` holds. -/
def remove (r : LoadRequest) (removed : List Value) : LoadRequest :=
  let kept (path : Value) : Bool := !removed.any path.same
  { paths := r.paths.filter kept
    columns := r.columns.filter (kept ·.1)
    callbacks := r.callbacks.filter (kept ·.1) }

end LoadRequest

/-- A query, with the queries united to it; each of those may keep the rows that are there already,
and is kept as it was given. -/
structure Query where
  select : Sql.Select
  branches : List (Bool × Query)
  loads : LoadRequest

namespace Query

/-- All rows of the source, nothing to load. -/
def blank (source : Sql.Source) (table : Value) : Query :=
  ⟨.all source table, [], .empty⟩

def statement (q : Query) : Sql.Statement :=
  ⟨q.select, q.branches.map fun (all, branch) => ⟨all, branch.select⟩⟩

end Query

/-- A step of building a query. One that fails keeps the query as it then stands. -/
abbrev Build := EStateM Error Query

namespace Build

def ofExcept : Except Error α → Build α
  | .ok a => pure a
  | .error e => throw e

/-- Runs a step on another query and answers its result with that query. -/
def on (other : Query) (step : Build α) : Build (α × Query) := fun q =>
  match step.run other with
  | .ok a after => .ok (a, after) q
  | .error e _ => .error e q

/-- The query that a step makes of another one. -/
def finish (q : Query) (step : Build α) : Except Error Query :=
  match step.run q with
  | .ok _ after => .ok after
  | .error e _ => .error e

def modifySelect (f : Sql.Select → Sql.Select) : Build Unit :=
  modify fun q => { q with select := f q.select }

def modifyLoads (f : LoadRequest → LoadRequest) : Build Unit :=
  modify fun q => { q with loads := f q.loads }

/-- The items of a value that can be gone through. -/
def itemsOf (v : Value) : Build (List Value) :=
  match v.items? with
  | some items => pure items
  | none => throw .badType

/-- Fails unless a value can be a key. -/
def checkKey (v : Value) : Build Unit := if v.isKey then pure () else throw .badType

/-- Asks for one path. Columns or a refinement are filed under the path, so it has to be a key then;
the path itself is asked for in any case. -/
def request (path : Value) (columns : List Value) (callback : Value) : Build Unit := do
  modifyLoads (·.addPath path)
  if !columns.isEmpty then
    checkKey path
    modifyLoads (·.restrict path (.list columns))
  if !callback.isNull then
    checkKey path
    modifyLoads (·.refine path callback)

/-- Asks for one path, with its columns written in it. -/
def withPath (path callback : Value) : Build Unit := do
  let (relation, columns) ← ofExcept (RelationPath.parse path)
  request relation columns callback

/-- Asks for one path of a dictionary, which gives its columns or a refinement. -/
def withEntry (path value : Value) : Build Unit := do
  match value.members? with
  | some columns =>
    let (relation, _) ← ofExcept (RelationPath.parse path)
    request relation columns .null
  | none => withPath path value

/-- Asks for what a value names: one path, a list of paths, or a dictionary of paths. -/
def with_ (relations callback : Value) : Build Unit :=
  match relations with
  | .text _ => withPath relations callback
  | .dict entries => entries.forM fun (path, value) => withEntry path value
  | _ => do (← itemsOf relations).forM fun path => withPath path .null

end Build

/-- A new query on a model, with the relations it always loads. -/
def Model.query (m : Model) : Except Error Query :=
  let blank := Query.blank m.source .null
  if m.defaultWith.isEmpty then .ok blank
  else Build.finish blank (Build.with_ (.list m.defaultWith) .null)

end Relata
