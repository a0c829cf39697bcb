import Relata.Loading.Shared
import Relata.Session.Stage

/-!
Calls by name on whatever a session holds: queries, models, objects, registries and maps of type
tags. Builder calls go to the query; the others are listed here with their parameters.
-/

namespace Relata.Session

/-- The items of a value given as an argument that is gone through. -/
def itemsOf (v : Value) : Play (List Value) := Act.getsExcept fun w => w.iterate v

private def bindArgs (s : Signature) (c : Call) : Play (List Value) :=
  Act.ofExcept ((s.bind c.args c.named).map fun bound => bound.map (·.getD .null))

/-- Hands a value that is no query to a callback, which can make no builder calls on it. -/
private def handTo (callback v : Value) : Play Value :=
  match callback with
  | .recipe [] answers => return if answers then v else .null
  | .recipe _ _ => throw .noAttribute
  | _ => throw .badType

/-- Runs a query in one of the ways of doing so. -/
def runQuery (q : Query) (r : Running) (args : List Value) : Play Value := do
  match r, args with
  | .rows, [] =>
    return .list ((← q.rows).map fun row => .dict (row.map fun (k, v) => (.text k, v)))
  | .get, [registry] => return .collection (← q.get registry).collection
  | .getWithKeys, [column, registry] =>
    let fetched ← q.fetch Loader.load column registry
    return .list ((fetched.keys.zip fetched.members).map fun (k, o) => .tuple [k, .object o])
  | .first orFail, [] => if orFail then q.firstOrFail else q.first
  | .find orFail, [id] => if orFail then q.findOrFail id else q.find id
  | .pluck, [column, key] => q.pluck column key
  | .value, [column] => q.value column
  | .aggregate, [function, column] => q.aggregate function column
  | .aggregateOf function, [column] => q.aggregate (.text function) column
  | .count, [column] => return .int (← q.count column)
  | .exists_ negated, [] =>
    let found ← q.exists_
    return .bool (found != negated)
  | .chunk, [size, callback] =>
    q.chunk size fun page => do
      discard (handTo callback page)
      return true
    return .null
  | .each, [callback] =>
    q.each fun o => discard (handTo callback o)
    return .null
  | _, _ => throw .badType

/-- Calls a method of a kept query. -/
def invokeQuery (id : QueryId) (c : Call) : Play Value := do
  match Method.ofName? c.method with
  | some (.running r) =>
    let args ← Act.ofExcept ((Method.running r).bind c)
    let q ← Act.getsExcept fun w => match w.queries[id]? with
      | some q => .ok q
      | none => .error .noAttribute
    runQuery q r (args.map (·.getD .null))
  | _ => callQuery id [c]

private def modelOf (id : ModelId) : Play Model :=
  Act.getsExcept fun w => match w.catalog.model? id with
    | some m => .ok m
    | none => .error .noAttribute

/-- A method that an object has for itself. -/
inductive OwnMethod where
  | related | getRelation | setRelation | forgetRelation | relationState | relationLoaded
  | load (force : Bool)
  | loadCount | loadForAll
deriving DecidableEq

namespace OwnMethod

def ofName? : String → Option OwnMethod
  | "related" => some related
  | "get_relation" => some getRelation
  | "set_relation" => some setRelation
  | "forget_relation" => some forgetRelation
  | "relation_state" => some relationState
  | "relation_loaded" => some relationLoaded
  | "load" => some (load true)
  | "load_missing" => some (load false)
  | "load_count" => some loadCount
  | "load_for_all" => some loadForAll
  | _ => none

/-- The arguments of a call, one for each parameter. Loading for all takes any number of relations,
which count as a list unless there is one alone. -/
def bind (m : OwnMethod) (c : Call) : Play (List Value) := do
  match m with
  | related | getRelation | forgetRelation | relationState | relationLoaded =>
    bindArgs [.needed "name"] c
  | setRelation => bindArgs [.needed "name", .needed "value"] c
  | load _ => bindArgs [.needed "relations", .orNull "registry"] c
  | loadCount => bindArgs [.needed "relations"] c
  | loadForAll =>
    let relations := match c.args with
      | [one] => one
      | several => .list several
    return relations :: (← bindArgs [.orNull "registry"] (.mk c.method [] c.named))

end OwnMethod

private def entityOf (id : ObjectId) : Play Entity :=
  Act.getsExcept fun w => match w.object? id with
    | some e => .ok e
    | none => .error .noAttribute

/-- Fails unless a name can be a key. -/
private def checkName (name : Value) : Play Unit := do
  if !(← Act.gets fun w => w.isKey name) then throw .badType

/-- Calls a method that an object has for itself. -/
def invokeOwn (id : ObjectId) (m : OwnMethod) (args : List Value) : Play Value := do
  let self := Value.object id
  match m, args with
  | .related, [name] =>
    match ← Act.getsExcept fun w => Deed.related w.toEnv id name with
    | .other q => return .query (← Deed.newQuery q)
    | .value v => return v
    | .self => throw .noAttribute
  | .getRelation, [name] =>
    checkName name
    let e ← entityOf id
    match e.value? name with
    | some v => return v
    | none => throw (.notLoaded (← modelOf e.model).name name)
  | .setRelation, [name, v] =>
    checkName name
    Deed.modifyObject id (·.setRelation name v)
    return .null
  | .forgetRelation, [name] =>
    if !(← entityOf id).slots.isEmpty then checkName name
    Deed.modifyObject id (·.forgetRelation name)
    return .null
  | .relationState, [name] =>
    checkName name
    return .text ((← entityOf id).state name).word
  | .relationLoaded, [name] =>
    checkName name
    return .bool ((← entityOf id).isLoaded name)
  | .load force, [relations, registry] =>
    Deed.loadMany [self] relations registry force
    return self
  | .loadCount, [relations] =>
    Deed.loadCounts [self] relations
    return self
  | .loadForAll, [relations, registry] =>
    Deed.loadForAll id relations registry
    return self
  | _, _ => throw .badType

/-- Calls a method of an object on what is given first in place of it. -/
private def invokeLoose (m : OwnMethod) (c : Call) : Play Value := do
  match c.args with
  | [] => throw .badType
  | first :: rest =>
    let args ← m.bind (.mk c.method rest c.named)
    match first, m with
    | .object id, _ => invokeOwn id m args
    | first, .related =>
      throw (.relationNotFound (← Act.gets fun w => w.className first) (args.headD .null).shown)
    | _, _ => throw .noAttribute

/-- Makes an object of a row; an object of the model, or of one below it, stands for itself. -/
private def fromRow (m : Model) (row : Value) : Play Value := do
  match row with
  | .dict entries => return .object (← Deed.newObject (← Act.ofExcept (m.hydrate entries)))
  | row =>
    let descends ← Act.gets fun w =>
      (w.modelOfValue? row).any (·.ancestry.contains (.model m.id))
    if descends then return row else throw (.invalid [⟨[], .notModel⟩])

/-- Calls a method of a model. -/
def invokeModel (id : ModelId) (c : Call) : Play Value := do
  let m ← modelOf id
  let onNew (call : Call) : Play Value := do
    let base ← Act.ofExcept m.query
    invokeQuery (← Deed.newQuery base) call
  match c.method with
  | "query" =>
    discard (bindArgs [] c)
    return .query (← Deed.newQuery (← Act.ofExcept m.query))
  | "with_" | "find" | "find_or_fail" => onNew c
  | "all" =>
    discard (bindArgs [] c)
    onNew (.mk "get" [] [])
  | "load_many" | "load_missing_many" =>
    match ← bindArgs [.needed "objects", .needed "relations", .orNull "registry"] c with
    | [objects, relations, registry] =>
      Deed.loadMany (← itemsOf objects) relations registry (c.method == "load_many")
      return .null
    | _ => throw .badType
  | "load_count_many" =>
    match ← bindArgs [.needed "objects", .needed "relations"] c with
    | [objects, relations] =>
      Deed.loadCounts (← itemsOf objects) relations
      return .null
    | _ => throw .badType
  | "morph_type" =>
    discard (bindArgs [] c)
    Act.gets fun w => w.tags.tagFor m
  | "get_table_name" =>
    discard (bindArgs [] c)
    return m.tableName
  | "get_connection_name" =>
    discard (bindArgs [] c)
    return m.connection
  | "uses_soft_deletes" =>
    discard (bindArgs [] c)
    return .bool m.softDeletes
  | "from_row" =>
    match ← bindArgs [.needed "row"] c with
    | [row] => fromRow m row
    | _ => throw .badType
  | name => match OwnMethod.ofName? name with
    | some own => invokeLoose own c
    | none => throw .noAttribute

/-- Calls a method of an object; those of its model are methods of the object too. -/
def invokeObject (id : ObjectId) (c : Call) : Play Value := do
  match OwnMethod.ofName? c.method with
  | some own => invokeOwn id own (← own.bind c)
  | none => invokeModel (← entityOf id).model c

/-- A row as a key of marks. -/
private def rowKey (env : Env) (model id : Value) : Except Error RowKey := do
  return ⟨← env.key model, ← env.key id⟩

/-- Calls a method of a registry. -/
def invokeRegistry (id : RegistryId) (c : Call) : Play Value := do
  match c.method with
  | "__len__" =>
    discard (bindArgs [] c)
    return .int (← Deed.registry id).marks.rows.length
  | "__repr__" =>
    discard (bindArgs [] c)
    return .text (← Deed.registry id).summary
  | "mark" =>
    match ← bindArgs [.needed "model", .needed "identifier", .needed "names"] c with
    | [m, identifier, names] =>
      if identifier.isNull then return .null
      let key ← Act.getsExcept fun w => rowKey w.toEnv m identifier
      let names ← Act.gets fun w => w.names names
      Deed.changeMarks id (·.mark key names)
      return .null
    | _ => throw .badType
  | "mark_objects" =>
    match ← bindArgs [.needed "objects", .needed "names"] c with
    | [objects, names] =>
      let names ← itemsOf names
      let names ← Act.gets fun w => names.map w.key
      Deed.markObjects id (← itemsOf objects) names
      return .null
    | _ => throw .badType
  | "is_loaded" =>
    match ← bindArgs [.needed "model", .needed "identifier", .needed "names"] c with
    | [m, identifier, names] =>
      if identifier.isNull then return .bool false
      let key ← Act.getsExcept fun w => rowKey w.toEnv m identifier
      let names ← Act.gets fun w => w.names names
      return .bool (← Deed.changeMarks id (·.isLoaded key names))
    | _ => throw .badType
  | "forget" =>
    match ← bindArgs [.needed "model", .needed "identifier", .orNull "names"] c with
    | [m, identifier, names] =>
      let key ← Act.getsExcept fun w => rowKey w.toEnv m identifier
      let names ← Act.gets fun w => if names.isNull then none else some (w.names names)
      Deed.changeMarks id (·.forget key names)
      return .null
    | _ => throw .badType
  | "in_flight" =>
    match ← bindArgs [.needed "key"] c with
    | [key] =>
      let key ← Act.getsExcept fun w => w.key key
      return ((← Deed.registry id).flights.find? key).elim .null .task
    | _ => throw .badType
  | "clear" =>
    discard (bindArgs [] c)
    Deed.modifyRegistry id fun r => { marks := r.marks.clear, flights := .empty }
    return .null
  | _ => throw .noAttribute

/-- The map of type tags of that number; number zero is the one that names are resolved with. -/
def tagMapOf (w : Place) (id : TagMapId) : TagMap :=
  if id = 0 then w.tags else (w.tagMaps[id - 1]?).getD .empty

private def setTagMap (w : Place) (id : TagMapId) (t : TagMap) : Place :=
  if id = 0 then { w with tags := t }
  else { w with tagMaps := w.tagMaps.setIfInBounds (id - 1) t }

/-- Calls a method of a map of type tags. -/
def invokeTagMap (id : TagMapId) (c : Call) : Play Value := do
  let one (name : String) : Play Value := do
    match ← bindArgs [.needed name] c with
    | [v] => return v
    | _ => throw .badType
  match c.method with
  | "register" =>
    let mapping ← one "mapping"
    (← Act.gets fun w => w.entries mapping).forM fun entry => do
      let entry ← Act.ofExcept entry
      Act.modify fun w => setTagMap w id ((tagMapOf w id).register [entry])
    return .null
  | "clear" =>
    discard (bindArgs [] c)
    Act.modify fun w => setTagMap w id .empty
    return .null
  | "aliases_for" =>
    let v ← one "model"
    Act.gets fun w => .list ((tagMapOf w id).aliasesFor v)
  | "morph_type_for" =>
    let v ← one "model"
    Act.getsExcept fun w => w.tagOf (tagMapOf w id) v
  | "possible_types_for" =>
    let v ← one "model"
    Act.getsExcept fun w => do
      let m ← w.asModel v
      return .list (← (tagMapOf w id).possibleTags m)
  | "model_for" =>
    let tag ← one "morph_type"
    Act.getsExcept fun w => (tagMapOf w id).modelFor w.catalog tag
  | _ => throw .noAttribute

/-- Calls a method of a task. -/
def invokeTask (id : TaskId) (c : Call) : Play Value := do
  match c.method with
  | "cancel" =>
    discard (bindArgs [.orNull "msg"] c)
    Act.cancel id
    return .bool true
  | _ => throw .noAttribute

/-- Calls a method of a value. -/
def invoke (target : Value) (c : Call) : Play Value :=
  match target with
  | .query id => invokeQuery id c
  | .model id => invokeModel id c
  | .object id => invokeObject id c
  | .registry id => invokeRegistry id c
  | .tagMap id => invokeTagMap id c
  | .task id => invokeTask id c
  | _ => throw .noAttribute

end Relata.Session
