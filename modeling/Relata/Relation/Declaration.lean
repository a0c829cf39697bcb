import Relata.Query.Methods
import Relata.Relation.Descriptor
import Relata.Signature

/-!
Declarations of relations. A declaration is either direct, with the fields of a descriptor given by
one of the declaring functions, or composed of two relations declared elsewhere: one followed from
the model and one from there on. Builder calls chained to it are recorded and made on every query
for the relation; the two that name pivot columns act on the fields at once.
-/

namespace Relata

inductive DeclarationForm where
  | direct (fields : Record)
  | composed (first final : Value)

structure Declaration where
  form : DeclarationForm
  /-- Fields that chained calls have set. -/
  pivotColumns : List Value
  pivotAlias : Option Value
  calls : List Call

namespace Declaration

/-- A declaring function: its parameters, each with the field it fills, and the fields it fixes. -/
structure Maker where
  kind : RelationKind
  parameters : List (Parameter × String)
  fixed : Record

private def related : Parameter × String := (.needed "related", "model")
private def null (name : String) : Parameter × String := (.orNull name, name)
private def id (name : String) : Parameter × String := (.orText name "id", name)
private def column : Parameter × String := (.orText "column" "created_at", "column")
private def aggregate : Parameter × String := (.orText "aggregate" "max", "aggregate")
private def morphName : Parameter × String := (.needed "name", "morph_name")
private def extremum (e : Extremum) : Record := [("aggregate", .text e.word)]

private def owned (kind : RelationKind) : Maker :=
  ⟨kind, [related, morphName, null "type_column", null "id_column", id "local_key"], []⟩

private def ownedOneOfMany (e : Extremum) : Maker :=
  ⟨.morphOneOfMany,
    [related, morphName, column, null "type_column", null "id_column", id "local_key"],
    extremum e⟩

private def throughKind (kind : RelationKind) : Maker :=
  ⟨kind,
    [related, (.needed "through", "through"), null "first_key", null "second_key", id "local_key",
    id "second_local_key"], []⟩

/-- The declaring functions. -/
def makers : List (String × Maker) :=
  [("has_one", ⟨.hasOne, [related, null "foreign_key", id "local_key"], []⟩),
    ("has_many", ⟨.hasMany, [related, null "foreign_key", id "local_key"], []⟩),
    ("has_one_of_many",
      ⟨.hasOne, [related, null "foreign_key", column, aggregate, id "local_key"], []⟩),
    ("latest_of_many",
      ⟨.hasOne, [related, null "foreign_key", column, id "local_key"], extremum .max⟩),
    ("oldest_of_many",
      ⟨.hasOne, [related, null "foreign_key", column, id "local_key"], extremum .min⟩),
    ("belongs_to", ⟨.belongsTo, [related, null "foreign_key", id "owner_key"], []⟩),
    ("belongs_to_many",
      ⟨.belongsToMany, [related, null "table", null "foreign_pivot_key", null "related_pivot_key",
        id "parent_key", id "related_key"], []⟩),
    ("morph_one", owned .morphOne),
    ("morph_many", owned .morphMany),
    ("morph_one_of_many",
      ⟨.morphOneOfMany,
        [related, morphName, column, aggregate, null "type_column", null "id_column",
        id "local_key"], []⟩),
    ("latest_morph_one", ownedOneOfMany .max),
    ("oldest_morph_one", ownedOneOfMany .min),
    ("morph_to",
      ⟨.morphTo, [(.orNull "name", "morph_name"), null "type_column", null "id_column"], []⟩),
    ("has_one_through", throughKind .hasOneThrough),
    ("has_many_through", throughKind .hasManyThrough)]

private def fresh (form : DeclarationForm) : Declaration := ⟨form, [], none, []⟩

/-- A declaration made by a declaring function, or by following one relation and then another. -/
def make (function : String) (args : List Value) (named : Record) : Except Error Declaration :=
  if function = "through" then
    match args, named with
    | [first, final], [] => .ok (fresh (.composed first final))
    | _, _ => .error .badType
  else match makers.lookup function with
    | none => .error .noAttribute
    | some maker => do
      let bound ← Signature.bind (maker.parameters.map (·.1)) args named
      let fields := (maker.parameters.zip bound).filterMap fun ((_, field), v) => v.map (field, ·)
      return fresh (.direct (("kind", .text maker.kind.word) :: fields ++ maker.fixed))

/-- The pivot columns with new ones added; an empty name or one that is there already is passed
over. -/
private def addPivot (there new : List Value) : List Value :=
  there ++ new.filter fun c => c.truthy && !there.any (Value.same c)

private def byName (calls : List (String × Value)) : List (String × Value) :=
  calls.mergeSort fun a b => !(b.1 < a.1)

/-- What a declaration is made of is read by these names, and cannot be called. -/
def parts : List String := ["fields", "constraints", "name", "owner", "describe"]

/-- The declaration with one more call chained to it. -/
def chain (d : Declaration) (call : Call) : Except Error Declaration :=
  if call.method = "with_pivot" then
    if call.named.isEmpty then .ok { d with pivotColumns := addPivot d.pivotColumns call.args }
    else .error .badType
  else if call.method = "as_" then do
    match ← Signature.bind [.needed "alias"] call.args call.named with
    | [some label] => return { d with pivotAlias := some label }
    | _ => .error .badType
  else if call.method.toList.head? = some '_' then .error .noAttribute
  else if parts.contains call.method then .error .badType
  else if (Method.ofName? call.method).isSome then
    .ok { d with calls := d.calls ++ [.mk call.method call.args (byName call.named)] }
  else .error (.unknownChain call.method)

/-- The fields of a direct declaration, those set by chained calls included. -/
def fields (d : Declaration) (form : Record) : Record :=
  let columns : Record :=
    if d.pivotColumns.isEmpty then [] else [("pivot_columns", .list d.pivotColumns)]
  let label : Record := match d.pivotAlias with
    | some v => [("pivot_alias", v)]
    | none => []
  columns ++ label ++ form

/-- The descriptor of a direct declaration. -/
def describe (d : Declaration) (form : Record) : Checked Descriptor :=
  match Descriptor.read (d.fields form) with
  | .good descriptor => .good { descriptor with constraints := d.calls }
  | .bad issues => .bad issues

end Declaration

/-- An entry of a static table of relations: a declaration, a descriptor, or whatever else stands
there to be taken as one. -/
inductive StaticEntry where
  | declaration (d : Declaration)
  | descriptor (d : Descriptor)
  | value (v : Value)

end Relata
