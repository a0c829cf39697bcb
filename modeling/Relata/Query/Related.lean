import Relata.Query.Call

/-!
The query for the rows related to parents with given keys. The rows of a joined kind carry the key
of their parent in a tagged column, so that they can be matched with it; those of the other kinds
carry it in a column of their own.
-/

namespace Relata

open Sql (Select)

/-- The column that carries the key of the parent in rows joined over a pivot table. -/
def pivotTag : String := "__pivot_fk"

/-- The column that carries the key of the parent in rows joined over a model in between. -/
def throughTag : String := "__through_fk"

namespace Descriptor

/-- The condition that keeps, for each value of the partition columns, the row with the extreme
value of `column`; deleted rows do not count if there are any. -/
def extremeCondition (table column : String) (extremum : Extremum) (partition : List String)
    (softDeletes : Bool) : String :=
  let links := " AND ".intercalate (partition.map fun key => s!"sub.{key} = {table}.{key}")
  let links := if softDeletes then links ++ " AND sub.deleted_at IS NULL" else links
  s!"{table}.{column} = (SELECT {extremum.function}(sub.{column}) FROM {table} sub WHERE {links})"

end Descriptor

namespace Build

/-- Keeps the rows whose column holds one of the keys. -/
def keyIn (column : String) (keys : List Value) : Build Unit :=
  whereIn .and false (.text column) (.list keys)

/-- Keeps, of the rows of one parent, the one with the extreme value. -/
def onlyExtreme (d : Descriptor) (related : Model) (partition : List String) : Build Unit :=
  addRaw .conditions .and
    (.text (Descriptor.extremeCondition related.table (Descriptor.written d.column)
      (d.aggregate.getD .max) partition related.softDeletes)) .null "where_raw"

/-- All columns of the related table, with the key of the parent tagged on if it is asked for. -/
private def joinedSelection (table key tag : String) (tagKeys : Bool) : List Value :=
  .text s!"{table}.*" :: (if tagKeys then [.text s!"{key} AS {tag}"] else [])

/-- Restricts a query on the related table to the rows linked to the keys. -/
def linkKeys (env : Env) (d : Descriptor) (parent related : Model) (keys : List Value)
    (tagKeys : Bool) : Build Unit := do
  let table := related.table
  let name := Descriptor.written
  match d.kind with
  | .hasOne | .hasMany =>
    keyIn (name d.foreignKey) keys
    if d.column.any (!·.isEmpty) then onlyExtreme d related [name d.foreignKey]
  | .belongsTo => keyIn (name d.ownerKey) keys
  | .morphOne | .morphMany | .morphOneOfMany =>
    keyIn (name d.typeColumn) (← ofExcept (env.tags.possibleTags parent))
    keyIn (name d.idColumn) keys
    if d.kind == .morphOneOfMany then onlyExtreme d related [name d.typeColumn, name d.idColumn]
  | .belongsToMany =>
    let pivot := name d.table
    let key := s!"{pivot}.{name d.foreignPivotKey}"
    select (joinedSelection table key pivotTag tagKeys)
    join .inner (.text pivot) (.text s!"{table}.{name d.relatedKey}") (.text "=")
      (.text s!"{pivot}.{name d.relatedPivotKey}")
    keyIn key keys
    setPivotSource (.text pivot) (.text d.pivotAlias)
    withPivot (d.pivotColumns.map .text)
  | .hasOneThrough | .hasManyThrough =>
    let through ← ofExcept (env.throughModel d)
    let between := through.table
    let key := s!"{between}.{name d.firstKey}"
    select (joinedSelection table key throughTag tagKeys)
    join .inner through.tableName (.text s!"{table}.{name d.secondKey}") (.text "=")
      (.text s!"{between}.{name d.secondLocalKey}")
    keyIn key keys
  | .morphTo => throw .badType

/-- Selects only the columns given and, besides, what matches rows with parents. -/
def restrictColumns (env : Env) (d : Descriptor) (table : String) (columns : Value) :
    Build Unit := do
  if env.truthy columns then
    let columns := env.opened columns
    let given ← itemsOf columns
    let key := d.relatedColumn.filter fun k =>
      !k.isEmpty && columns.holds (.text k) != some true
    let wanted := given ++ key.toList.map .text
    modifySelect fun s =>
      { s with columns := if d.kind.isJoined then
          wanted.map (fun c => .text s!"{table}.{c.shown}") ++ s.columns.drop 1
        else wanted }

end Build

namespace Env

/-- The query for the rows of a relation that belong to parents of the class `parent` with the keys,
restricted to the columns if there are any. A relation whose target depends on each row has none. -/
def relationQuery (env : Env) (d : Descriptor) (parent : Model) (keys : List Value)
    (columns : Value) (tagKeys : Bool) : Except Error Query := do
  if d.kind == .morphTo then
    throw (.relationKind (Descriptor.written d.morphName) "a relation with a fixed target model"
      "morph_to")
  let related ← env.relatedModel d
  let base ← related.query
  Build.finish base do
    Build.linkKeys env d parent related keys tagKeys
    discard (env.chain d.constraints)
    Build.restrictColumns env d related.table columns

end Env

end Relata
