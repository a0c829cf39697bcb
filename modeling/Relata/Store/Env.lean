import Relata.Query.Parts
import Relata.Registry.Flights
import Relata.Store.Entity

/-!
What builder calls can refer to: the models and aliases, and the objects, collections, queries,
registries and variables that a session keeps. Attributes of an object are read here: its declared
fields come first, then what its class declares, then the columns kept beside the fields.

Objects count as equal if they are of one class and have one identifier. `canonical` replaces each
object by the first that is equal to it, so that `Value.same` compares values as they count.
-/

namespace Relata

structure Env extends Lookup where
  objects : Array Entity
  collections : Array (List ObjectId)
  queries : Array Query
  registries : Array Registry
  stored : List (String × Value)

namespace Env

def object? (env : Env) (id : ObjectId) : Option Entity := env.objects[id]?

/-- Whether a value is an object that holds the relation. -/
def isLoadedOn (env : Env) (slot : Value) : Value → Bool
  | .object id => (env.object? id).any (·.isLoaded slot)
  | _ => false

def modelOf? (env : Env) (o : Entity) : Option Model := env.catalog.model? o.model

/-- The model of a value that is an object. -/
def modelOfValue? (env : Env) : Value → Option Model
  | .object id => (env.object? id).bind env.modelOf?
  | _ => none

def registryOf (env : Env) (id : RegistryId) : Registry :=
  (env.registries[id]?).getD (.empty Registry.defaultLimit)

/-- What a collection holds. -/
def collectionOf (env : Env) (id : CollectionId) : List Value :=
  ((env.collections[id]?).getD []).map .object

/-- The declaration of a relation by the class that owns it. -/
def declaration? (env : Env) (owner : ModelId) (name : String) : Option Declaration :=
  ((env.catalog.model? owner).bind fun m => m.declared.lookup name).map (·.2)

/-- The name of the class of a value. -/
def className (env : Env) : Value → String
  | .null => "NoneType"
  | .bool _ => "bool"
  | .int _ => "int"
  | .float _ => "float"
  | .text _ => "str"
  | .time _ => "datetime"
  | .list _ => "list"
  | .tuple _ => "tuple"
  | .dict _ | .failure _ | .portrait _ => "dict"
  | .model _ => "ModelMeta"
  | .object id => ((env.object? id).bind env.modelOf?).elim "object" (·.name)
  | .collection _ => "Collection"
  | .query _ | .draft _ _ => "Query"
  | .registry _ => "LoadRegistry"
  | .tagMap _ => "MorphMap"
  | .task _ => "Task"
  | .recipe _ _ => "function"
  | .relation owner name =>
    match (env.declaration? owner name).map Declaration.form with
    | some (.composed _ _) => "ThroughDeclaration"
    | _ => "RelationDeclaration"
  | .parameter _ | .variable _ _ | .thrown _ => "object"

/-- The truth of a value as a condition; a collection or a registry that holds nothing is false. -/
def truthy (env : Env) : Value → Bool
  | .collection id => !(env.collectionOf id).isEmpty
  | .registry id => !(env.registryOf id).marks.rows.isEmpty
  | v => v.truthy

/-- The members of a list, a tuple or a collection. -/
def members? (env : Env) : Value → Option (List Value)
  | .collection id => some (env.collectionOf id)
  | v => v.members?

/-- A value as it is gone through: a collection as a list, an object or a query as pairs of names
and values. -/
def opened (env : Env) : Value → Value
  | .collection id => .list (env.collectionOf id)
  | .object id => match env.object? id with
    | some o => .list ((o.fields ++ o.extra).map fun (name, v) => .tuple [.text name, v])
    | none => .object id
  | .query id => match env.queries[id]? with
    | some q => q.pairs
    | none => .query id
  | v => v

/-- A collection as a list; any other value as it is. -/
def listed (env : Env) : Value → Value
  | .collection id => .list (env.collectionOf id)
  | v => v

/-- The items of a value that can be gone through. -/
def iterate (env : Env) (v : Value) : Except Error (List Value) :=
  match (env.opened v).items? with
  | some items => .ok items
  | none => .error .badType

/-- Whether two objects count as equal. -/
def equalObjects (env : Env) (a b : ObjectId) : Bool :=
  a == b || match env.object? a, env.object? b with
    | some e, some f => e.model == f.model && !e.id.isNull && !f.id.isNull && e.id.same f.id
    | _, _ => false

/-- The first object that counts as equal. -/
def firstEqual (env : Env) (id : ObjectId) : ObjectId :=
  ((List.range id).find? fun other => env.equalObjects other id).getD id

mutual

/-- The value with each object in it replaced by the first that counts as equal. -/
def canonical (env : Env) : Value → Value
  | .object id => .object (env.firstEqual id)
  | .list items => .list (env.canonicalItems items)
  | .tuple items => .tuple (env.canonicalItems items)
  | .dict entries => .dict (env.canonicalEntries entries)
  | v => v

def canonicalItems (env : Env) : List Value → List Value
  | [] => []
  | v :: rest => env.canonical v :: env.canonicalItems rest

def canonicalEntries (env : Env) : List (Value × Value) → List (Value × Value)
  | [] => []
  | (k, v) :: rest => (env.canonical k, env.canonical v) :: env.canonicalEntries rest

end

/-- Whether two values count as equal. -/
def same (env : Env) (a b : Value) : Bool := (env.canonical a).same (env.canonical b)

mutual

/-- Whether a value can be a key; an object can if its identifier can. -/
def isKey (env : Env) : Value → Bool
  | .object id => (env.object? id).all (·.id.isKey)
  | .tuple items => env.areKeys items
  | v => v.isKey

def areKeys (env : Env) : List Value → Bool
  | [] => true
  | v :: rest => env.isKey v && env.areKeys rest

end

/-- The value as it counts among keys. -/
def key (env : Env) (v : Value) : Except Error Value :=
  if env.isKey v then .ok (env.canonical v) else .error .badType

/-- The names that a value lists, each an error that cannot be one. -/
def names (env : Env) (v : Value) : Names :=
  match env.iterate v with
  | .ok items => items.map env.key
  | .error e => [.error e]

/-- The entries with `v` under `key`; a key that is there stays as it is and keeps its place. -/
def put (env : Env) (entries : List (Value × Value)) (key v : Value) : List (Value × Value) :=
  if entries.any fun e => env.same key e.1 then
    entries.map fun e => if env.same key e.1 then (e.1, v) else e
  else entries ++ [(key, v)]

/-- The dictionary of the entries, of which the later ones of one key replace the value. -/
def dictOf (env : Env) (entries : List (Value × Value)) : Except Error Value :=
  if env.areKeys (entries.map (·.1)) then
    .ok (.dict (entries.foldl (fun there (k, v) => env.put there k v) []))
  else .error .badType

/-- The key and the value that an item of a list of pairs is. -/
def entryOf (env : Env) (item : Value) : Except Error (Value × Value) := do
  match ← env.iterate item with
  | [key, v] => if env.isKey key then return (key, v) else throw .badType
  | _ => throw .badValue

/-- The entries that a value lists, those of a dictionary or pairs, each an error that is none. -/
def entries (env : Env) (v : Value) : List (Except Error (Value × Value)) :=
  match v with
  | .dict entries => entries.map .ok
  | v => match env.iterate v with
    | .ok items => items.map env.entryOf
    | .error e => [.error e]

/-- The entries that a value lists, as those of a dictionary; a value that counts as false
lists none. -/
def entriesOrNone (env : Env) (v : Value) : Except Error (List (Value × Value)) := do
  if !env.truthy v then return []
  let listed ← (env.entries v).mapM id
  return listed.foldl (fun there (k, v) => env.put there k v) []

/-- Methods of every model and its objects. -/
def methodNames : List String :=
  ["query", "with_", "find", "find_or_fail", "all", "related", "get_relation", "set_relation",
    "forget_relation", "relation_state", "relation_loaded", "load_many", "load_missing_many",
    "load_count_many", "load", "load_missing", "load_count", "load_for_all", "get_table_name",
    "get_connection_name", "uses_soft_deletes", "morph_type", "from_row"]

/-- What stands for a method that is read and not called. -/
def method : Value := .recipe [] false

/-- The attribute of an object, or none if it has none of that name. A declared relation that is not
loaded is an error. -/
def propertyOf? (env : Env) (o : Entity) (name : String) : Except Error (Option Value) :=
  if name = "loaded_relations" then .ok (some (.dict o.loadedRelations))
  else match o.fields.lookup name with
    | some v => .ok (some v)
    | none =>
      let model := env.modelOf? o
      if model.any fun m => m.declared.any (·.1 == name) then
        match o.value? (.text name) with
        | some v => .ok (some v)
        | none => .error (.notLoaded (model.elim "" (·.name)) (.text name))
      else if methodNames.contains name then .ok (some method)
      else if name = "_collection" then
        .ok (some (match o.collection with
          | some c => .collection c
          | none => .null))
      else if name = "_relations" then .ok (some (.dict o.loadedRelations))
      else if name = "_relation_states" then
        .ok (some (.dict (o.slots.map fun (n, _) => (n, .text (o.state n).word))))
      else .ok (o.extra.lookup name)

/-- The attribute of a value, or none if it has none of that name. -/
def property? (env : Env) (v : Value) (name : String) : Except Error (Option Value) :=
  match v with
  | .object id => match env.object? id with
    | some o => env.propertyOf? o name
    | none => .ok none
  | _ => .ok none

/-- The attribute of a value, null if it has none of that name. -/
def propertyOrNull (env : Env) (v : Value) (name : String) : Except Error Value :=
  (env.property? v name).map (·.getD .null)

/-- The attribute of a value that has to have it. -/
def requireProperty (env : Env) (v : Value) (name : String) : Except Error Value := do
  match ← env.property? v name with
  | some a => return a
  | none => throw .noAttribute

/-- The names and values of an object in words, objects nested at most `depth` deep. -/
def partsUpTo (env : Env) : Nat → ObjectId → List String
  | 0, _ => []
  | depth + 1, id =>
    let object (id : ObjectId) : String :=
      env.className (.object id) ++ "(" ++ ", ".intercalate (env.partsUpTo depth id) ++ ")"
    match env.object? id with
    | some o => (o.fields ++ o.extra).map fun (name, v) => s!"{name}={v.innerBy object}"
    | none => []

/-- How deep objects may nest in a text. -/
def wordingDepth : Nat := 50

/-- The text of a value inside another one. -/
def inner (env : Env) (v : Value) : String :=
  v.innerBy fun id =>
    env.className (.object id) ++ "(" ++ ", ".intercalate (env.partsUpTo wordingDepth id) ++ ")"

/-- The text of a value. -/
def shown (env : Env) : Value → String
  | .object id => " ".intercalate (env.partsUpTo wordingDepth id)
  | .collection id => env.inner (.list (env.collectionOf id))
  | .text s => s
  | .time m => m.written ' '
  | v => env.inner v

/-- The tag under which rows refer to a value, as a map of type tags gives it. -/
def tagOf (env : Env) (t : TagMap) (v : Value) : Except Error Value :=
  match v with
  | .model id => (env.asModel (.model id)).map t.tagFor
  | v =>
    let own := (env.modelOfValue? v).bind Model.ownTag?
    match own, t.aliasesFor v with
    | some tag, _ => .ok tag
    | none, tag :: _ => .ok tag
    | none, [] => .error .noAttribute

/-- The tag under which rows refer to a value of the class that this one is of. -/
def classTag (env : Env) (t : TagMap) (v : Value) : Value :=
  match env.modelOfValue? v with
  | some m => t.tagFor m
  | none => .text (env.className v)

end Env

end Relata
