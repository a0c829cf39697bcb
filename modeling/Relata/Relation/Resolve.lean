import Relata.Schema.Tags

/-!
Resolution of a relation by its name on a model. The static table is asked first, then the declared
relations, whose default names derive from the class that declared them. A relation that cannot be
described is not there; a composed one is described by the two relations that it is composed of.
-/

namespace Relata

/-- The models and the aliases that names are resolved with. -/
structure Lookup where
  catalog : Catalog
  tags : TagMap

namespace Lookup

/-- The name that default key names derive from. -/
def nameOf (l : Lookup) : Value → String
  | .null => ""
  | .model id => ((l.catalog.model? id).map (·.name)).getD ""
  | v => v.shown

/-- The model that a value is. -/
def asModel (l : Lookup) : Value → Except Error Model
  | .model id => match l.catalog.model? id with
    | some m => .ok m
    | none => .error .noAttribute
  | _ => .error .noAttribute

/-- The model that a reference leads to. -/
def target (l : Lookup) (reference : Value) : Except Error Model := do
  let found ← l.tags.resolve l.catalog reference
  if found.isNull then .error (.unresolvedTag reference.shown) else l.asModel found

/-- The model that the relation leads to. -/
def relatedModel (l : Lookup) (d : Descriptor) : Except Error Model := l.target d.target

/-- The model in between. -/
def throughModel (l : Lookup) (d : Descriptor) : Except Error Model := l.target d.through

/-- Causes for which a relation counts as not there: a reference that leads nowhere, a faulty
record, a value of the wrong kind. -/
def isUndescribable : Error → Bool
  | .relationNotFound .. | .unresolvedTag _ | .invalid _ | .badType => true
  | _ => false

/-- The relation composed of `first` and, on the model it leads to, `final`. -/
def compose (first final : Descriptor) (between : Model) (calls : List Call)
    (missing : Error) : Except Error Descriptor := do
  let (secondKey, secondLocalKey) ← match final.kind with
    | .belongsTo => .ok (final.ownerKey, final.foreignKey)
    | .hasOne | .hasMany => .ok (final.foreignKey, final.localKey)
    | _ => .error missing
  let single := final.kind == .belongsTo || final.kind == .hasOne
  return {
    kind := if single then .hasOneThrough else .hasManyThrough
    target := final.target
    foreignKey := none
    localKey := first.localKey
    ownerKey := none
    table := none
    foreignPivotKey := none
    relatedPivotKey := none
    parentKey := none
    relatedKey := none
    pivotColumns := []
    pivotAlias := "pivot"
    morphName := none
    typeColumn := none
    idColumn := none
    column := none
    aggregate := none
    through := .model between.id
    firstKey := first.foreignKey
    secondKey := secondKey
    secondLocalKey := secondLocalKey
    constraints := final.constraints ++ calls }

mutual

/-- The descriptor that a declaration gives on a model. -/
def describe (l : Lookup) : Nat → Model → Declaration → Except Error Descriptor
  | 0, _, _ => .error .tooDeep
  | depth + 1, m, d =>
    match d.form with
    | .direct form => (d.describe form).toExcept
    | .composed first final => do
      let one ← l.requireUpTo depth m first
      if !(one.kind == .hasOne || one.kind == .hasMany) then
        throw (.relationNotFound m.name first.shown)
      let between ← l.relatedModel one
      let two ← l.requireUpTo depth between final
      compose one two between d.calls (.relationNotFound between.name final.shown)

/-- The complete descriptor of the relation of that name on a model, or none; compositions may refer
to each other `depth` levels deep. -/
def resolveUpTo (l : Lookup) : Nat → Model → Value → Except Error (Option Descriptor)
  | 0, _, _ => .error .tooDeep
  | depth + 1, m, .text name =>
    let described : Except Error (Option (Descriptor × String)) :=
      match m.static.lookup name with
      | some (.declaration d) => (l.describe depth m d).map fun d => some (d, m.name)
      | some (.descriptor d) => .ok (some (d, m.name))
      | some (.value v) => (Descriptor.ofValue v).toExcept.map fun d => some (d, m.name)
      | none => match m.declared.lookup name with
        | some (owner, d) =>
          let ownerName := ((l.catalog.model? owner).map (·.name)).getD m.name
          (l.describe depth m d).map fun d => some (d, ownerName)
        | none => .ok none
    match described with
    | .ok (some (d, owner)) => .ok (some (d.withDefaults owner l.nameOf name))
    | .ok none => .ok none
    | .error e => if isUndescribable e then .ok none else .error e
  | _ + 1, _, _ => .ok none

/-- As `resolveUpTo`, a relation that is not there being an error. -/
def requireUpTo (l : Lookup) : Nat → Model → Value → Except Error Descriptor
  | 0, _, _ => .error .tooDeep
  | depth + 1, m, name => do
    match ← l.resolveUpTo depth m name with
    | some d => return d
    | none => throw (.relationNotFound m.name name.shown)

end

/-- How deep compositions may refer to each other. -/
def compositionDepth : Nat := 600

/-- The descriptor of a relation, or none if the model has no such relation. -/
def resolve (l : Lookup) (m : Model) (name : Value) : Except Error (Option Descriptor) :=
  l.resolveUpTo compositionDepth m name

/-- The descriptor of a relation that has to be there. -/
def require (l : Lookup) (m : Model) (name : Value) : Except Error Descriptor :=
  l.requireUpTo compositionDepth m name

end Lookup

end Relata
