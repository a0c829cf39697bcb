import Relata.Loading.Run

/-!
Loading on objects that are at hand: for one object, for a list, or for an object and all that were
fetched with it. The last kind is shared. Whoever asks for the same relations of the same objects
while they are being loaded waits for that load; an object that is another copy of a row then takes
the values over.
-/

namespace Relata

namespace Deed

variable {τ : Type}

/-- Carries out `load` unless a load under the same key is in flight, and answers the outcome of the
one that is. The key is released by the task that carries out the load, whatever the outcome. -/
def coordinate (registry : RegistryId) (key : Value) (load : Deed τ Value) : Deed τ Value := do
  match (← Deed.registry registry).flights.find? key with
  | some task => Act.join task
  | none =>
    let task ← Act.spawn fun self => load.always <|
      modifyRegistry registry fun r => { r with flights := r.flights.release key self }
    modifyRegistry registry fun r => { r with flights := r.flights.start key task }
    Act.join task

/-- The paths and the loader that a request names. -/
def request (env : Env) (relations : Value) : Except Error LoadRequest :=
  let blank := Query.blank default .null
  (Build.finish blank (env.call (.mk "with_" [relations] []))).map (·.loads)

/-- Loads relations on objects; those that are loaded already are fetched again if `force`
is set. -/
def loadMany (objects : List Value) (relations registry : Value) (force : Bool) :
    Deed τ Unit := do
  let objects := objects.filter (!·.isNull)
  if objects.isEmpty then return ()
  let r ← Act.getsExcept fun w => request w.toEnv relations
  Loader.load (.ofRequest r registry force) objects r.paths

/-- The name that a selected expression is given. -/
def aliasOf (column : String) : Except Error String :=
  let mark := " AS ".toList
  let rec search (best : Option (List Char)) : List Char → Option (List Char)
    | [] => best
    | c :: rest =>
      let here := if mark.isPrefixOf (c :: rest) then some ((c :: rest).drop mark.length) else best
      search here rest
  match search none column.toList with
  | some name => .ok (String.ofList name)
  | none => .error .noKey

/-- The statement that counts related rows of the objects with these identifiers, deleted
ones too. -/
def countingQuery (env : Env) (m : Model) (relations : Value) (ids : List Value) :
    Except Error Query := do
  let base ← m.query
  Build.finish base do
    Build.withOnly (.list [])
    Build.select [.text s!"{m.table}.id"]
    Build.modifySelect fun s => { s with trashed := .included }
    discard (env.call (.mk "with_count" [relations] []))
    if !env.areKeys ids then throw .badType
    Build.whereIn .and false (.text s!"{m.table}.id") (.list (Value.distinct ids))

/-- Sets the number of related rows of each relation on every object that has an identifier. -/
def loadCounts (objects : List Value) (relations : Value) : Deed τ Unit := do
  let withIds ← (objects.filter (!·.isNull)).mapM fun o => do
    return (o, ← Act.getsExcept fun w => w.requireProperty o "id")
  let withIds := withIds.filter (!·.2.isNull)
  match withIds with
  | [] => return ()
  | (first, _) :: _ =>
    let ids := withIds.map (·.2)
    let q ← Act.getsExcept fun w => match w.modelOfValue? first with
      | some m => countingQuery w.toEnv m relations ids
      | none => .error .noAttribute
    let names ← Act.ofExcept ((q.select.columns.drop 1).mapM fun c => aliasOf c.shown)
    let rows ← q.rows
    let keyed ← rows.mapM fun row => match row.lookup "id" with
      | some id => if id.isKey then pure (id, row) else throw .badType
      | none => throw .noKey
    withIds.forM fun (o, id) =>
      let row := (Value.lookup? id keyed.reverse).getD []
      names.forM fun name => do
        let v := (row.lookup name).getD .null
        let n ← if v.truthy then Act.ofExcept (Sql.Select.rowCount v) else pure 0
        modifyEntity o fun e => { e with extra := Row.put e.extra name (.int n) }

/-- Takes relations over from the copy of the same row among other objects. -/
def copyFrom (self : ObjectId) (others : List Value) (names : List String) : Deed τ Unit :=
  Act.modify fun w =>
    match w.object? self with
    | none => w
    | some own =>
      let isOwn : Value → Bool
        | .object other => w.equalObjects other self
        | _ => false
      match others.find? isOwn with
      | some (.object other) =>
        if other == self then w
        else
          let entity := names.foldl (fun (e : Entity) name =>
            match (w.object? other).bind (·.value? (.text name)) with
            | some v => if e.isLoaded (.text name) then e else e.setRelation (.text name) v
            | none => e) own
          { w with objects := w.objects.setIfInBounds self entity }
      | _ => w

/-- The first segments of paths. -/
def segments (paths : List Value) : Except Error (List String) := do
  let read ← paths.mapM fun
    | .text path => .ok path
    | _ => .error .noAttribute
  return (RelationPath.group read).map (·.1)

/-- Whether relations are known to be loaded on the targets of a load: judged by the first of them,
or, for an object on its own, by the registry. Targets judged by the first one are marked. -/
def knownOn (own : Entity) (targets : List Value) (names : List String) (given : Value) :
    Deed τ Bool := do
  let marked : Names := names.map fun name => .ok (.text name)
  match targets with
  | first :: _ :: _ =>
    let loaded ← Act.gets fun w => names.all fun name => w.isLoadedOn (.text name) first
    if loaded then markObjects (← Act.ofExcept (registryId given)) targets marked
    return loaded
  | _ =>
    let registry ← Act.ofExcept (registryId given)
    let id ← Act.getsExcept fun w => w.key own.id
    changeMarks registry (·.isLoaded ⟨.model own.model, id⟩ marked)

/-- The key under which loads of the paths are in flight: that of the collection, or of the row. -/
def flightKey (own : Entity) (members : List Value) (paths : List Value) : Deed τ Value := do
  let paths := (paths.map (·.shown)).mergeSort fun a b => !(b < a)
  match own.collection, members with
  | some c, _ :: _ => return Flights.collectionKey c paths
  | _, _ =>
    let id ← Act.getsExcept fun w => w.key own.id
    return Flights.rowKey ⟨.model own.model, id⟩ paths

/-- Loads paths on targets, marks the targets with the names, and answers them. -/
def loadTargets (r : LoadRequest) (given : Value) (registry : RegistryId) (targets : List Value)
    (names : List String) : Deed τ Value := do
  Loader.load (.ofRequest r given false) targets r.paths
  markObjects registry targets (names.map fun name => .ok (.text name))
  return .list targets

/-- Takes over what an object still lacks from the targets that were loaded. -/
def receive (self : ObjectId) (names : List String) (loaded : Value) : Deed τ Unit := do
  let complete ← Act.gets fun w => names.all fun name => w.isLoadedOn (.text name) (.object self)
  if !complete then
    match loaded with
    | .list others => copyFrom self others names
    | _ => pure ()

/-- Loads relations on an object and on all that were fetched with it, unless they are known to be
loaded. -/
def loadForAll (self : ObjectId) (relations given : Value) : Deed τ Unit := do
  let r ← Act.getsExcept fun w => request w.toEnv relations
  let names ← Act.ofExcept (segments r.paths)
  let own ← Act.getsExcept fun w => match w.object? self with
    | some e => .ok e
    | none => .error .noAttribute
  let members ← Act.gets fun w => (own.collection.map w.collectionOf).getD []
  let targets := if members.isEmpty then [Value.object self] else members
  if ← knownOn own targets names given then return ()
  let registry ← Act.ofExcept (registryId given)
  let key ← flightKey own members r.paths
  receive self names (← coordinate registry key (loadTargets r given registry targets names))

/-- The query for the rows related to one object. -/
def related (env : Env) (o : ObjectId) (name : Value) : Except Error Answer := do
  let entity ← match env.object? o with
    | some e => .ok e
    | none => .error .noAttribute
  let m ← env.asModel (.model entity.model)
  let d ← env.require m name
  let read (column : String) : Except Error Value := do
    return (← env.propertyOf? entity column).getD .null
  if d.kind == .morphTo then
    let tag ← read (Descriptor.written d.typeColumn)
    let found ← if tag.isNull then .ok .null else env.tags.modelFor env.catalog tag
    if found.isNull then throw (.unresolvedTag (env.shown tag))
    let target ← env.asModel found
    let base ← target.query
    let id ← read (Descriptor.written d.idColumn)
    let step : Build Answer := do
      Build.addCondition (← Build.comparison .and (.text s!"{target.table}.id") (some id) none)
      env.chain d.constraints
    match step.run base with
    | .ok .self q => return .other q
    | .ok answer _ => return answer
    | .error e _ => .error e
  else
    let key ← read (Descriptor.written d.parentAttribute)
    return .other (← env.relationQuery d m [key] .null false)

end Deed

end Relata
