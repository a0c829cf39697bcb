import Relata.Relation.Kind
import Relata.Text.Case
import Relata.Validation.Record

/-!
Descriptors of relations: the kind, the target and the names of the keys, with the builder calls
that refine every query for the relation. A target is a model, a name to be looked up when the
relation is used, or nothing. Names left out get a default made of the lowercased names of the
models.
-/

namespace Relata

structure Descriptor where
  kind : RelationKind
  target : Value
  foreignKey : Option String
  localKey : Option String
  ownerKey : Option String
  table : Option String
  foreignPivotKey : Option String
  relatedPivotKey : Option String
  parentKey : Option String
  relatedKey : Option String
  pivotColumns : List String
  pivotAlias : String
  morphName : Option String
  typeColumn : Option String
  idColumn : Option String
  column : Option String
  aggregate : Option Extremum
  through : Value
  firstKey : Option String
  secondKey : Option String
  secondLocalKey : Option String
  constraints : List Call
deriving Inhabited

namespace Descriptor

private def extrema : List (String × Extremum) := [("max", .max), ("min", .min)]

private def aggregateField (r : Record) : Checked (Option Extremum) :=
  match r.get? "aggregate" with
  | none | some .null => .good none
  | some (.text s) => match extrema.lookup s with
    | some e => .good (some e)
    | none => .bad [⟨["aggregate"], .notChoice⟩]
  | some _ => .bad [⟨["aggregate"], .notChoice⟩]

/-- The fault of a text that stands among others. -/
private def textIssues (place : List String) : Value → List Issue
  | .text _ => []
  | _ => [⟨place, .notText⟩]

/-- A list of texts, each faulty item reported at its position. -/
private def textsField (r : Record) (name : String) : Checked (List String) :=
  match r.get? name with
  | none => .good []
  | some v => match v.members? with
    | some items =>
      let issues := items.zipIdx.flatMap fun (v, i) => textIssues [name, toString i] v
      if issues.isEmpty then .good (items.filterMap Value.asText?) else .bad issues
    | none => .bad [⟨[name], .notTuple⟩]

/-- The items of a field that lists them; a field left out lists none. -/
private def membersField (r : Record) (name : String) : Checked (List Value) :=
  match r.get? name with
  | none => .good []
  | some v => match v.members? with
    | some items => .good items
    | none => .bad [⟨[name], .notTuple⟩]

/-- A named argument written as a pair. -/
private def pairField (place : List String) (v : Value) : Checked (String × Value) :=
  match v.members? with
  | some [] => .bad [⟨place ++ ["0"], .missing⟩, ⟨place ++ ["1"], .missing⟩]
  | some [name] => .bad (textIssues (place ++ ["0"]) name ++ [⟨place ++ ["1"], .missing⟩])
  | some [.text name, value] => .good (name, value)
  | some [name, _] => .bad (textIssues (place ++ ["0"]) name)
  | some _ => .bad [⟨place, .tooLong⟩]
  | none => .bad [⟨place, .notTuple⟩]

/-- All of several checks. -/
private def allGood (checks : List (Checked α)) : Checked (List α) :=
  checks.foldr (fun c rest => List.cons <$> c <*> rest) (.good [])

/-- The named arguments of a recorded call; of two of one name the later one counts. -/
private def namedField (r : Record) : Checked Record :=
  (membersField r "kwargs").andThen fun pairs =>
    let named := allGood (pairs.zipIdx.map fun (v, i) => pairField ["kwargs", toString i] v)
    (fun entries => entries.foldl (fun (there : List (String × Value)) (name, v) =>
      if there.any (·.1 == name) then there.map fun e => if e.1 == name then (name, v) else e
      else there ++ [(name, v)]) []) <$> named

/-- A recorded call written as a record. -/
private def callField (place : List String) (v : Value) : Checked Call :=
  match Record.ofValue? v with
  | none => .bad [⟨place, .notModel⟩]
  | some r =>
    match Call.mk <$> r.text "method" none <*> membersField r "args" <*> namedField r with
    | .good call => .good call
    | .bad issues => .bad (issues.map fun i => { i with place := place ++ i.place })

private def callsField (r : Record) (name : String) : Checked (List Call) :=
  (membersField r name).andThen fun items =>
    allGood (items.zipIdx.map fun (v, i) => callField [name, toString i] v)

/-- A descriptor read from its fields. -/
def read (r : Record) : Checked Descriptor :=
  Descriptor.mk <$> r.choice "kind" none RelationKind.words <*> r.any "model" (some .null) <*>
    r.text? "foreign_key" <*> r.text? "local_key" <*> r.text? "owner_key" <*> r.text? "table" <*>
    r.text? "foreign_pivot_key" <*> r.text? "related_pivot_key" <*> r.text? "parent_key" <*>
    r.text? "related_key" <*> textsField r "pivot_columns" <*>
    r.text "pivot_alias" (some "pivot") <*>
    r.text? "morph_name" <*> r.text? "type_column" <*> r.text? "id_column" <*> r.text? "column" <*>
    aggregateField r <*> r.any "through" (some .null) <*> r.text? "first_key" <*>
    r.text? "second_key" <*> r.text? "second_local_key" <*> callsField r "constraints"

/-- A value taken as a descriptor: a record of its fields, and nothing else. -/
def ofValue (v : Value) : Checked Descriptor :=
  match Record.ofValue? v with
  | some r => read r
  | none => .bad [⟨[], .notModel⟩]

/-- The first of two that is there. -/
private def or_ (name : Option String) (default : String) : Option String :=
  some (name.getD default)

/-- Fills in the names left out. `parent` is the name of the class that the defaults derive from,
and `nameOf` gives the name of a target; both are lowercased. -/
def withDefaults (d : Descriptor) (parent : String) (nameOf : Value → String) (name : String) :
    Descriptor :=
  let parent := Text.lowercase parent
  let related := Text.lowercase (nameOf d.target)
  match d.kind with
  | .hasOne | .hasMany =>
    { d with
      foreignKey := or_ d.foreignKey s!"{parent}_id"
      localKey := or_ d.localKey "id"
      aggregate := if d.column.isSome then some (d.aggregate.getD .max) else d.aggregate }
  | .belongsTo =>
    { d with
      foreignKey := or_ d.foreignKey s!"{related}_id"
      ownerKey := or_ d.ownerKey "id" }
  | .belongsToMany =>
    let table := if related < parent then s!"{related}_{parent}" else s!"{parent}_{related}"
    { d with
      table := or_ d.table table
      foreignPivotKey := or_ d.foreignPivotKey s!"{parent}_id"
      relatedPivotKey := or_ d.relatedPivotKey s!"{related}_id"
      parentKey := or_ d.parentKey "id"
      relatedKey := or_ d.relatedKey "id" }
  | .morphOne | .morphMany | .morphOneOfMany | .morphTo =>
    let morphName := match d.morphName with
      | some m => if m.isEmpty then name else m
      | none => name
    let owned := d.kind.isMorphOwned
    let oneOfMany := d.kind == .morphOneOfMany
    { d with
      morphName := or_ d.morphName morphName
      typeColumn := or_ d.typeColumn s!"{morphName}_type"
      idColumn := or_ d.idColumn s!"{morphName}_id"
      localKey := if owned then or_ d.localKey "id" else d.localKey
      column := if oneOfMany then or_ d.column "created_at" else d.column
      aggregate := if oneOfMany then some (d.aggregate.getD .max) else d.aggregate }
  | .hasOneThrough | .hasManyThrough =>
    let between := Text.lowercase (nameOf d.through)
    { d with
      firstKey := or_ d.firstKey s!"{parent}_id"
      secondKey := or_ d.secondKey s!"{between}_id"
      localKey := or_ d.localKey "id"
      secondLocalKey := or_ d.secondLocalKey "id" }

/-- A key name as it is written into SQL; a complete descriptor lacks none that it needs. -/
def written (key : Option String) : String := key.getD "None"

/-- The attribute of the parent whose value identifies its related rows. -/
def parentAttribute (d : Descriptor) : Option String :=
  match d.kind with
  | .belongsTo => d.foreignKey
  | .belongsToMany => d.parentKey
  | .morphTo => d.idColumn
  | _ => d.localKey

/-- The column of the related rows that is matched with the key of the parent; the rows of a joined
kind carry that key in a column of its own. -/
def relatedColumn (d : Descriptor) : Option String :=
  match d.kind with
  | .hasOne | .hasMany => d.foreignKey
  | .belongsTo => d.ownerKey
  | .morphOne | .morphMany | .morphOneOfMany => d.idColumn
  | _ => none

end Descriptor

end Relata
