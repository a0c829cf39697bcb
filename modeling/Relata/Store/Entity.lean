import Relata.Relation.Resolve

/-!
Objects made from rows. The columns that the model declares become fields, validated; the others are
kept beside them. The relations of an object are slots: a slot that is there is either being loaded
or holds the loaded value, so a value is stored exactly where the state says that one is.
-/

namespace Relata

/-- A relation of one object that has been asked for. -/
inductive Slot where
  | loading
  | loaded (v : Value)

/-- Where a relation of one object stands. -/
inductive RelationState where
  | notRequested
  | loading
  | loaded
deriving DecidableEq

def RelationState.word : RelationState → String
  | notRequested => "not_requested"
  | loading => "loading"
  | loaded => "loaded"

structure Entity where
  model : ModelId
  fields : Row
  extra : Row
  /-- The relations asked for, each under its name; a caller may name one by any key. -/
  slots : List (Value × Slot)
  /-- The collection that the object was last fetched with. -/
  collection : Option CollectionId
deriving Inhabited

/-- The row with the column set; a column that is there keeps its place. -/
def Row.put (row : Row) (name : String) (v : Value) : Row := Catalog.put row name v

namespace Entity

def slot? (o : Entity) (name : Value) : Option Slot := Value.lookup? name o.slots

def state (o : Entity) (name : Value) : RelationState :=
  match o.slot? name with
  | none => .notRequested
  | some .loading => .loading
  | some (.loaded _) => .loaded

/-- The loaded value of a relation. -/
def value? (o : Entity) (name : Value) : Option Value :=
  match o.slot? name with
  | some (.loaded v) => some v
  | _ => none

def isLoaded (o : Entity) (name : Value) : Bool := (o.value? name).isSome

def setSlot (o : Entity) (name : Value) (s : Slot) : Entity :=
  { o with slots := Value.put o.slots name s }

def setRelation (o : Entity) (name v : Value) : Entity := o.setSlot name (.loaded v)

def forgetRelation (o : Entity) (name : Value) : Entity :=
  { o with slots := Value.drop o.slots name }

/-- A loaded value stays readable while it is being fetched again. -/
def beginLoading (o : Entity) (name : Value) : Entity :=
  if o.isLoaded name then o else o.setSlot name .loading

/-- Takes back `beginLoading` after a failure. -/
def abandonLoading (o : Entity) (name : Value) : Entity :=
  if o.isLoaded name then o else o.forgetRelation name

/-- The loaded relations with their values. -/
def loadedRelations (o : Entity) : List (Value × Value) :=
  o.slots.filterMap fun (name, s) => match s with
    | .loaded v => some (name, v)
    | .loading => none

def id (o : Entity) : Value := (o.fields.lookup "id").getD .null

end Entity

namespace Model

/-- How a key that is no text is named in an issue. -/
private def keyPlace : Value → String
  | .bool b => if b then "1" else "0"
  | key => key.inner

/-- The fields of a row as the model types them, and the columns that it does not declare. Every key
has to be a text. -/
def hydrate (m : Model) (row : List (Value × Value)) : Except Error Entity :=
  let named : Row := row.filterMap fun (key, v) => key.asText?.map (·, v)
  let checked := m.fields.map fun f => (f.name, match named.lookup f.name, f.default with
    | some v, _ => f.type.read v
    | none, some v => .ok v
    | none, none => .error .missing)
  let fieldIssues : List Issue := checked.filterMap fun (name, r) => match r with
    | .error fault => some ⟨[name], fault⟩
    | .ok _ => none
  let keyIssues : List Issue := row.filterMap fun (key, _) => match key with
    | .text _ => none
    | key => some ⟨[keyPlace key], .badKey⟩
  if fieldIssues.isEmpty && keyIssues.isEmpty then
    let fields := checked.filterMap fun (name, r) => r.toOption.map (name, ·)
    let extra := named.filter fun (name, _) => (m.field? name).isNone
    .ok ⟨m.id, fields, extra, [], none⟩
  else .error (.invalid (fieldIssues ++ keyIssues))

end Model

/-- The error of reading a relation that is not loaded. -/
def Error.notLoaded (model : String) (name : Value) : Error :=
  .relationNotLoaded model name.shown name.inner

end Relata
