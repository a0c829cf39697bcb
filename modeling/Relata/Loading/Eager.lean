import Relata.Loading.Fetch

/-!
Eager loading. A relation is loaded on all objects of one class together: their distinct keys go
into as few statements as the chunk size allows, and the rows that come back are matched with the
objects by key. While a relation is fetched its slots say so, and a failure takes that back; what
was loaded before stays. The rest of a path is loaded on the objects that its first segment leads
to.
-/

namespace Relata

/-- The values in pieces of `more + 1`, the last one possibly shorter. -/
def pieces (more : Nat) : List Value → List (List Value)
  | [] => []
  | v :: rest => (v :: rest.take more) :: pieces more (rest.drop more)
termination_by values => values.length
decreasing_by simp only [List.length_cons, List.length_drop]; omega

/-- The values in pieces of the given size. There are no pieces of a size below zero, and a size of
zero is no size. -/
def chunks (size : Value) (values : List Value) : Except Error (List (List Value)) :=
  let sized (size : Int) : Except Error (List (List Value)) :=
    if size = 0 then .error .badValue
    else if size < 0 then .ok []
    else .ok (pieces (size.toNat - 1) values)
  match size with
  | .bool b => sized (if b then 1 else 0)
  | .int size => sized size
  | _ => .error .badType

/-- Nothing is lost and nothing moved. -/
theorem flatten_pieces (more : Nat) (values : List Value) :
    (pieces more values).flatten = values := by
  fun_induction pieces more values with
  | case1 => rfl
  | case2 v rest ih => simp [ih]

/-- Distinct values that are not null, in the order in which they are first seen. -/
def distinctKeys (values : List Value) : List Value := Value.distinct (values.filter (!·.isNull))

/-- Values filed under keys, each key with its values in order. -/
abbrev Matches := List (Value × List Value)

namespace Matches

def add (m : Matches) (key v : Value) : Matches :=
  if m.any fun e => key.same e.1 then m.map fun e => if key.same e.1 then (e.1, e.2 ++ [v]) else e
  else m ++ [(key, [v])]

def under (m : Matches) (key : Value) : List Value := (Value.lookup? key m).getD []

end Matches

/-- What objects are grouped by before loading. -/
inductive ClassKey where
  | model (id : ModelId)
  | named (name : String)
deriving DecidableEq

/-- What a loaded value of a relation holds: the members of a list, or a value by itself. -/
def Env.heldBy (env : Env) : Value → List Value
  | .null => []
  | .list items => items
  | .collection id => env.collectionOf id
  | v => [v]

namespace Loader

variable {τ : Type}

/-- What an object is grouped by. -/
def classKey (env : Env) : Value → ClassKey
  | .object id => match env.object? id with
    | some o => .model o.model
    | none => .named "object"
  | v => .named (env.className v)

/-- The groups with one more object, which opens a group of its own or joins the one of its class. -/
def addByClass (env : Env) (groups : List (ClassKey × List Value)) (v : Value) :
    List (ClassKey × List Value) :=
  let key := classKey env v
  if groups.any (·.1 == key) then
    groups.map fun g => if g.1 == key then (g.1, g.2 ++ [v]) else g
  else groups ++ [(key, [v])]

/-- The objects that are there, grouped by class in the order in which the classes are
first seen. -/
def byClass (env : Env) (objects : List Value) : List (ClassKey × List Value) :=
  (objects.filter (!·.isNull)).foldl (addByClass env) []

/-- The query refined as the path asks. -/
def refined (self : Loader) (env : Env) (q : Query) (path : String) : Except Error Query :=
  match Value.lookup? (.text path) self.callbacks with
  | none | some .null => .ok q
  | some callback =>
    match (env.refine callback).run q with
    | .ok (.other q') _ => .ok q'
    | .ok _ q => .ok q
    | .error e _ => .error e

def keysMustHash (values : List Value) : Deed τ Unit := do
  if !(← Act.gets fun w => w.areKeys values) then throw .badType

/-- The columns that a path is restricted to, null if there are none. -/
def columnsFor (self : Loader) (path : String) : Value :=
  (Value.lookup? (.text path) self.columns).getD .null

/-- The query for the rows that belong to the keys, restricted and refined as the path asks. -/
def chunkQuery (self : Loader) (env : Env) (d : Descriptor) (parent : Model) (path : String)
    (keys : List Value) : Except Error Query := do
  let q ← env.relationQuery d parent keys (self.columnsFor path) true
  self.refined env q path

/-- The column in which rows of a joined kind carry the key of their parent. -/
def tagColumn (d : Descriptor) : String :=
  if d.kind == .belongsToMany then pivotTag else throughTag

/-- The objects that belong to the keys, each with the key that it was found by. -/
def fetchChunk (load : LoadPaths τ) (self : Loader) (d : Descriptor) (parent : Model)
    (path : String) (keys : List Value) : Deed τ (List (Value × ObjectId)) := do
  let q ← Act.getsExcept fun w => self.chunkQuery w.toEnv d parent path keys
  match d.relatedColumn with
  | none =>
    let page ← q.fetch load (.text (tagColumn d)) self.registry
    keysMustHash page.keys
    return page.keys.zip page.members
  | some column =>
    let page ← q.fetch load .null self.registry
    let keys ← page.members.mapM fun o => Deed.propertyOrNull (.object o) column
    keysMustHash keys
    return keys.zip page.members

/-- The related objects of each object, for a relation with a fixed target. -/
def fetchRelated (load : LoadPaths τ) (self : Loader) (d : Descriptor) (parent : Model)
    (path : String) (objects : List Value) : Deed τ (List Value) := do
  let parentAttribute := Descriptor.written d.parentAttribute
  let parentKeys ← objects.mapM fun o => Deed.propertyOrNull o parentAttribute
  keysMustHash (parentKeys.filter (!·.isNull))
  let chunks ← Act.ofExcept (chunks self.chunkSize (distinctKeys parentKeys))
  let pages ← chunks.mapM fun keys => fetchChunk load self d parent path keys
  let related := pages.flatten
  discard (Deed.adopt (related.map (·.2)))
  let found := related.foldl (fun (m : Matches) (key, o) => m.add key (.object o)) []
  objects.mapM fun o => do
    let key ← Deed.propertyOrNull o parentAttribute
    let mine := found.under key
    return if d.kind.isSingle then mine.headD .null else .list mine

/-- What each object names by its tag; a tag that nothing bears is warned of. -/
def targetsByTag (d : Descriptor) (path : String) (objects : List Value) :
    Deed τ (List (Value × List Value)) :=
  objects.foldlM (fun groups o => do
    let tag ← Deed.propertyOrNull o (Descriptor.written d.typeColumn)
    if tag.isNull then return groups
    let target ← Act.getsExcept fun w => w.tags.modelFor w.catalog tag
    if target.isNull then
      let (name, shown) ← Act.gets fun w => (w.className o, w.shown tag)
      Deed.warn s!"Cannot resolve morph type `{shown}` for {name}.{path}, assigning None"
      return groups
    keysMustHash [target]
    return Matches.add groups target o) []

/-- The columns given and, if it is not among them, the identifier. -/
def withIdentifier (env : Env) (columns : Value) : Except Error (List Value) := do
  let items ← env.iterate columns
  match (env.opened columns).holds (.text "id") with
  | some true => return items
  | _ => return items ++ [.text "id"]

/-- The query for the targets that the identifiers belong to, restricted and refined as the path
asks. -/
def targetQuery (self : Loader) (env : Env) (d : Descriptor) (m : Model) (path : String)
    (keys : List Value) : Except Error Query := do
  let columns := self.columnsFor path
  let q ← Build.finish (← m.query) do
    Build.whereIn .and false (.text s!"{m.table}.id") (.list keys)
    discard (env.chain d.constraints)
    if env.truthy columns then
      Build.select (← Build.ofExcept (withIdentifier env columns))
  self.refined env q path

/-- The targets of objects that name one model, by identifier. -/
def fetchTargets (load : LoadPaths τ) (self : Loader) (d : Descriptor) (path : String)
    (target : Value) (members : List Value) : Deed τ (List (Value × Value)) := do
  let idColumn := Descriptor.written d.idColumn
  let m ← Act.getsExcept fun w => w.asModel target
  let ids ← members.mapM fun o => Deed.propertyOrNull o idColumn
  keysMustHash (ids.filter (!·.isNull))
  let chunks ← Act.ofExcept (chunks self.chunkSize (distinctKeys ids))
  let pages ← chunks.mapM fun keys => do
    let q ← Act.getsExcept fun w => self.targetQuery w.toEnv d m path keys
    let page ← q.fetch load .null self.registry
    let ids ← page.members.mapM fun o => Act.getsExcept fun w => w.requireProperty (.object o) "id"
    keysMustHash ids
    return ids.zip page.members
  let fetched := pages.flatten
  discard (Deed.adopt (fetched.map (·.2)))
  members.mapM fun o => do
    let id ← Deed.propertyOrNull o idColumn
    return (o, ((Value.lookup? id fetched).map .object).getD .null)

/-- The target of each object, for a relation whose target depends on the row. -/
def fetchMorphTo (load : LoadPaths τ) (self : Loader) (d : Descriptor) (path : String)
    (objects : List Value) : Deed τ (List Value) := do
  let groups ← targetsByTag d path objects
  let found ← groups.mapM fun (target, members) => fetchTargets load self d path target members
  return objects.map fun o => (Value.lookup? o found.flatten.reverse).getD .null

/-- The value of a loaded relation of a value. -/
def relationOf (env : Env) (o : Value) (name : String) : Except Error Value :=
  match o with
  | .object id => match env.object? id with
    | some e => match e.value? (.text name) with
      | some v => .ok v
      | none => .error (.notLoaded (env.className o) (.text name))
    | none => .error .noAttribute
  | _ => .error .noAttribute

/-- The objects that a relation leads to. -/
def children (objects : List Value) (name : String) : Deed τ (List Value) := do
  let values ← objects.mapM fun o => Act.getsExcept fun w => relationOf w.toEnv o name
  let env ← Act.gets World.toEnv
  return values.flatMap env.heldBy

/-- Where a path stands below the objects that loading began with. -/
structure Position where
  /-- The path down to these objects, with a point at its end, or nothing. -/
  above : String
  /-- The objects were reached over a relation whose target depends on the row; those of them whose
  class lacks a relation are passed over. -/
  polymorphic : Bool

/-- Fetches a relation for objects of one class and sets it on them. -/
def loadPending (load : LoadPaths τ) (self : Loader) (d : Descriptor) (m : Model) (path : String)
    (slot : Value) (pending : List Value) : Deed τ Unit := do
  pending.forM fun o => Deed.modifyEntity o (·.beginLoading slot)
  let fetching := if d.kind == .morphTo then fetchMorphTo load self d path pending
    else fetchRelated load self d m path pending
  match ← fetching.attempt with
  | .error e =>
    pending.forM fun o => Deed.modifyEntity o (·.abandonLoading slot)
    throw e
  | .ok values =>
    (pending.zip values).forM fun (o, v) => Deed.modifyEntity o (·.setRelation slot v)
    let registry ← Act.ofExcept (Deed.registryId self.registry)
    Deed.markObjects registry pending [.ok slot]

/-- The relation of that name on the class of an object, with the class; none if the object is to be
passed over. -/
def described (env : Env) (polymorphic : Bool) (o : Value) (name : String) :
    Except Error (Option (Model × Descriptor)) :=
  match env.modelOfValue? o with
  | some m =>
    if polymorphic then (env.resolve m (.text name)).map fun d => d.map fun d => (m, d)
    else (env.require m (.text name)).map fun d => some (m, d)
  | none => if polymorphic then .ok none else .error (.relationNotFound (env.className o) name)

/-- Loads one relation on objects of one class, unless they hold it already. -/
def loadRelation (load : LoadPaths τ) (self : Loader) (objects : List Value) (name : String)
    (at_ : Position) : Deed τ (Option Descriptor) := do
  let first := objects.headD .null
  let slot := Value.text name
  match ← Act.getsExcept fun w => described w.toEnv at_.polymorphic first name with
  | none => return none
  | some (m, d) =>
    let loaded ← Act.gets fun w => w.isLoadedOn slot
    let pending := if self.force then objects else objects.filter (!loaded ·)
    if !pending.isEmpty then loadPending load self d m (at_.above ++ name) slot pending
    return some d

/-- A path that can be followed. -/
def segmented : Value → Except Error String
  | .text path => .ok path
  | _ => .error .noAttribute

/-- Loads paths on objects, nested at most `depth` deep. Paths that nothing is loaded for are not
looked at closely. -/
def loadBelow : Nat → Loader → List Value → List Value → Position → Deed τ Unit
  | 0, _, _, _, _ => throw .tooDeep
  | depth + 1, self, objects, paths, at_ => do
    let read ← Act.ofExcept (paths.mapM RelationPath.parse)
    let columns := read.foldl (fun columns (path, names) =>
      if names.isEmpty then columns
      else Value.put columns (.text (at_.above ++ path.shown)) (.list names)) self.columns
    let self := { self with columns := columns }
    let nestedLoad : LoadPaths τ := fun loader objects paths =>
      loadBelow depth loader objects paths ⟨"", false⟩
    let groups ← Act.gets fun w => byClass w.toEnv objects
    groups.forM fun (_, members) => do
      let segments ← Act.ofExcept (read.mapM fun (path, _) => segmented path)
      (RelationPath.group segments).forM fun (name, nested) => do
        match ← loadRelation nestedLoad self members name at_ with
        | none => pure ()
        | some d =>
          if !nested.isEmpty then
            let below ← children members name
            if !below.isEmpty then
              loadBelow depth self below (nested.map .text)
                ⟨at_.above ++ name ++ ".", d.kind == .morphTo⟩

/-- How deep loading may nest. -/
def depthLimit : Nat := 400

/-- Loads paths of relations on objects. -/
def load : LoadPaths τ := fun self objects paths =>
  loadBelow depthLimit self objects paths ⟨"", false⟩

end Loader

namespace Query

variable {τ : Type}

/-- Runs the query and answers its objects, with the relations loaded that it asks for. -/
def get (q : Query) (registry : Value) : Deed τ Fetched := q.fetch Loader.load .null registry

end Query

end Relata
