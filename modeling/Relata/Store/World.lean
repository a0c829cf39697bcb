import Relata.Process.Basic
import Relata.Query.Related

/-!
The state that running queries changes: the objects and collections that come of them, the
registries, the further maps of type tags, the names under which connections are open, and the
warnings given. What else a program keeps beside it is of any type `τ` and left alone.
-/

namespace Relata

structure World (τ : Type) extends Env where
  /-- Maps of type tags beside the one that names are resolved with. -/
  tagMaps : Array TagMap
  /-- The runner of each open connection, by name. -/
  connections : List (String × Nat)
  warnings : List String
  rest : τ

namespace World

variable {τ : Type}

/-- A world with models and aliases, and the registry that loads share by default. -/
def start (l : Lookup) (rest : τ) : World τ where
  toLookup := l
  objects := #[]
  collections := #[]
  queries := #[]
  registries := #[.empty Registry.defaultLimit]
  stored := []
  tagMaps := #[]
  connections := []
  warnings := []
  rest := rest

def defaultRegistry : RegistryId := 0

/-- The runner of the connection of that name. -/
def runner (w : World τ) (connection : Value) : Except Error Nat :=
  if !w.isKey connection then .error .badType
  else match w.connections.find? fun c => connection.same (.text c.1) with
    | some (_, runner) => .ok runner
    | none => .error (.notConnected (w.shown connection))

end World

/-- An action on a world. -/
abbrev Deed (τ : Type) := Act (World τ)

namespace Deed

variable {τ : Type}

/-- Adds an object made from a row. -/
def newObject (o : Entity) : Deed τ ObjectId :=
  Act.modifyGet fun w => (w.objects.size, { w with objects := w.objects.push o })

/-- Adds a query, to be referred to by number. -/
def newQuery (q : Query) : Deed τ QueryId :=
  Act.modifyGet fun w => (w.queries.size, { w with queries := w.queries.push q })

def modifyObject (id : ObjectId) (f : Entity → Entity) : Deed τ Unit :=
  Act.modify fun w => { w with objects := w.objects.modify id f }

/-- Changes an object if the value is one. -/
def modifyEntity (v : Value) (f : Entity → Entity) : Deed τ Unit :=
  match v with
  | .object id => modifyObject id f
  | _ => Act.fail .noAttribute

def modifyRegistry (id : RegistryId) (f : Registry → Registry) : Deed τ Unit :=
  Act.modify fun w => { w with registries := w.registries.modify id f }

def registry (id : RegistryId) : Deed τ Registry := Act.gets fun w => w.registryOf id

/-- The registry that a value names; none given is the one that loads share by default. -/
def registryId : Value → Except Error RegistryId
  | .null => .ok World.defaultRegistry
  | .registry id => .ok id
  | _ => .error .noAttribute

/-- Changes the marks of a registry, and ends as the change ends. -/
def changeMarks (id : RegistryId) (f : Marks → Marks × Except Error α) : Deed τ α := do
  let outcome ← Act.modifyGet fun w =>
    let r := w.registryOf id
    let (marks, outcome) := f r.marks
    (outcome, { w with registries := w.registries.setIfInBounds id { r with marks := marks } })
  Act.ofExcept outcome

def warn (text : String) : Deed τ Unit :=
  Act.modify fun w => { w with warnings := w.warnings ++ [text] }

/-- Makes a collection of the objects and lets each of them know it. -/
def adopt (members : List ObjectId) : Deed τ CollectionId :=
  Act.modifyGet fun w =>
    let id := w.collections.size
    let objects := members.foldl (fun objects o =>
      objects.modify o fun e => { e with collection := some id }) w.objects
    (id, { w with collections := w.collections.push members, objects := objects })

/-- The attribute of a value, null if it has none of that name. -/
def propertyOrNull (v : Value) (name : String) : Deed τ Value :=
  Act.getsExcept fun w => w.propertyOrNull v name

/-- Runs a statement on the connection of that name. -/
def execute (connection : Value) (sql : String) (params : List Value) : Deed τ (List Row) := do
  Act.ask ⟨← Act.getsExcept fun w => w.runner connection, sql, params⟩

/-- Marks objects in a registry with the names of loaded relations. -/
def markObjects (registry : RegistryId) (objects : List Value) (names : Names) : Deed τ Unit :=
  objects.forM fun o => do
    let id ← Act.getsExcept fun w => w.requireProperty o "id"
    if !id.isNull then
      let key ← Act.getsExcept fun w => do
        let model := (w.modelOfValue? o).elim .null fun m => Value.model m.id
        return (⟨model, ← w.key id⟩ : RowKey)
      changeMarks registry fun marks => marks.mark key names

end Deed

end Relata
