import Relata.Relation.Declaration
import Relata.Sql.Select
import Relata.Validation.Scalar

/-!
Models. A model stands for a table: its fields with their types, the relations declared on it and on
its ancestors, its scopes and its settings, all as they are after inheritance.
-/

namespace Relata

structure FieldType where
  scalar : ScalarType
  /-- Nothing is a value of the field. -/
  nullable : Bool

structure Field where
  name : String
  type : FieldType
  default : Option Value

/-- The value as one of the type of the field. -/
def FieldType.read (t : FieldType) (v : Value) : Except Fault Value :=
  if t.nullable && v.isNull then .ok .null else t.scalar.read v

/-- What a class may inherit from: another model, the field of deleted rows, or the root of all
models. -/
inductive Ancestor where
  | model (id : ModelId)
  | deletion
  | root
deriving DecidableEq

/-- A named refinement of queries with parameters; `answers` tells whether the result of its last
call replaces the query. -/
structure Scope where
  name : String
  calls : List Call
  answers : Bool

structure Model where
  id : ModelId
  name : String
  key : String
  /-- The class and its ancestors in the order in which they are searched. -/
  ancestry : List Ancestor
  bases : List Ancestor
  fields : List Field
  /-- The table that the class or an ancestor names, or null. -/
  namedTable : Value
  softDeletes : Bool
  /-- The tag that the class gives itself, or null. -/
  morphClass : Value
  morphTypes : List Value
  connection : Value
  defaultWith : List Value
  hidden : List Value
  /-- Declared relations, each with the class that declared it. -/
  declared : List (String × ModelId × Declaration)
  /-- The static table written on the class itself. -/
  ownStatic : Option (List (String × StaticEntry))
  /-- The static table of the first class of the ancestry that has one. -/
  static : List (String × StaticEntry)
  /-- The scopes written on the class itself. -/
  ownScopes : List Scope
  /-- The scopes of the ancestry, nearer ones first. -/
  scopes : List Scope

namespace Model

/-- The table named, or the lowercased name of the class with an s. -/
def tableName (m : Model) : Value :=
  if m.namedTable.truthy then m.namedTable else .text (Text.lowercase m.name ++ "s")

/-- The table as it is written into SQL. -/
def table (m : Model) : String := m.tableName.shown

def source (m : Model) : Sql.Source where
  model := m.id
  name := m.name
  table := m.table
  connection := m.connection
  softDeletes := m.softDeletes

/-- The names of all relations, those of the static table first. -/
def relationNames (m : Model) : List String :=
  let static := m.static.map (·.1)
  static ++ (m.declared.map (·.1)).filter (!static.contains ·)

def field? (m : Model) (name : String) : Option Field := m.fields.find? (·.name == name)

/-- The tag that the class itself gives, if it gives one. -/
def ownTag? (m : Model) : Option Value := if m.morphClass.truthy then some m.morphClass else none

end Model

end Relata
