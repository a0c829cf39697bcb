import Relata.Store.Env

/-!
Dumps: an object written as a dictionary of its fields, the columns beside them and its loaded
relations, where each object met inside a value is dumped in turn. Names that the model hides are
left out at every depth, names excluded by the caller at the top only. A field is dumped before it
is hidden, so one that cannot be dumped spoils the dump even then; a hidden relation is not touched.
-/

namespace Relata

namespace Value

/-- A key as it is dumped: in plain interchange data keys are texts. -/
def keyForm (plain : Bool) (key : Value) : Value :=
  if plain then
    match key with
    | bool b => text (if b then "true" else "false")
    | time m => text (m.written 'T')
    | key => text key.shown
  else key

/-- A single value as it is dumped. Plain interchange data has texts for moments, nothing for
numbers that are not finite, and no form for what is no data. -/
def form (plain : Bool) (v : Value) : Except Error Value :=
  if plain then
    match v with
    | time m => .ok (text (m.written 'T'))
    | float x => match x with
      | .finite _ _ _ => .ok v
      | _ => .ok null
    | model _ | query _ | registry _ | tagMap _ | task _ | relation _ _ | failure _ | recipe _ _
    | draft _ _ => .error .undumpable
    | v => .ok v
  else .ok v

/-- The items as a tuple, which plain interchange data has none of. -/
def tupleForm (plain : Bool) (items : List Value) : Value :=
  if plain then list items else tuple items

mutual

/-- The value as it is dumped, with what `object` gives in place of each object in it; a collection
becomes a list. -/
def expand (plain : Bool) (object : ObjectId → Except Error Value)
    (members : CollectionId → List ObjectId) : Value → Except Error Value
  | .object id => object id
  | .collection id => list <$> (members id).mapM object
  | list items => list <$> expandItems plain object members items
  | tuple items => tupleForm plain <$> expandItems plain object members items
  | dict entries => dict <$> expandEntries plain object members entries
  | v => v.form plain

def expandItems (plain : Bool) (object : ObjectId → Except Error Value)
    (members : CollectionId → List ObjectId) : List Value → Except Error (List Value)
  | [] => .ok []
  | v :: rest =>
    return (← expand plain object members v) :: (← expandItems plain object members rest)

def expandEntries (plain : Bool) (object : ObjectId → Except Error Value)
    (members : CollectionId → List ObjectId) :
    List (Value × Value) → Except Error (List (Value × Value))
  | [] => .ok []
  | (k, v) :: rest =>
    return (k.keyForm plain, ← expand plain object members v) ::
      (← expandEntries plain object members rest)

end

end Value

/-- The fields of an object and the columns beside them. -/
def Entity.row (o : Entity) : List (Value × Value) :=
  (o.fields ++ o.extra).map fun (name, v) => (.text name, v)

namespace Env

/-- What a collection holds, by number. -/
def membersOf (env : Env) (id : CollectionId) : List ObjectId := (env.collections[id]?).getD []

/-- Whether the class of the object hides the name. -/
def hides (env : Env) (o : Entity) (name : Value) : Bool :=
  (((env.modelOf? o).map (·.hidden)).getD []).any name.same

/-- An entry as it is dumped, with what `object` gives in place of each object in it. -/
def dumpEntry (env : Env) (plain : Bool) (object : ObjectId → Except Error Value)
    (e : Value × Value) : Except Error (Value × Value) := do
  return (e.1, ← e.2.expand plain object env.membersOf)

/-- The dump of an object, with related objects at most `depth` levels below it. -/
def dumpUpTo (env : Env) (plain : Bool) : Nat → List String → ObjectId → Except Error Value
  | 0, _, _ => .error .undumpable
  | depth + 1, excluded, id =>
    match env.object? id with
    | none => .error .undumpable
    | some o => do
      let dumped := env.dumpEntry plain (env.dumpUpTo plain depth [])
      let kept (e : Value × Value) : Bool := !excluded.any fun name => e.1.same (.text name)
      let shown (e : Value × Value) : Bool := !env.hides o e.1
      let own ← (·.filter shown) <$> (o.row.filter kept).mapM dumped
      let relations ← ((o.loadedRelations.filter kept).filter shown).mapM dumped
      let entries := relations.foldl (fun entries e => Value.put entries e.1 e.2) own
      return .dict (entries.map fun e => (e.1.keyForm plain, e.2))

/-- How many levels of related objects a dump may have. -/
def dumpDepth : Nat := 200

/-- The dump of an object, as plain interchange data if `plain` is set. -/
def dump (env : Env) (plain : Bool) (excluded : List String) (id : ObjectId) : Except Error Value :=
  env.dumpUpTo plain dumpDepth excluded id

end Env

end Relata
