import Relata.Schema.Linearization
import Relata.Schema.Model

/-!
The catalog of models, in the order of their definition. A definition is completed by what it
inherits when it is entered; a setting left out is taken from the first base.
-/

namespace Relata

structure Catalog where
  models : Array Model

namespace Catalog

def empty : Catalog := ⟨#[]⟩

def model? (c : Catalog) (id : ModelId) : Option Model := c.models[id]?

def byKey? (c : Catalog) (key : String) : Option Model :=
  c.models.toList.reverse.find? (·.key == key)

/-- The classes that name `base` among their bases, most recently defined first. -/
def children (c : Catalog) (base : Ancestor) : List ModelId :=
  (c.models.toList.filter (·.bases.contains base)).reverse.map (·.id)

/-- The classes below `base` down to `depth` levels, each followed by those below it. -/
def below (c : Catalog) : Nat → Ancestor → List ModelId
  | 0, _ => []
  | depth + 1, base => (c.children base).flatMap fun id => id :: c.below depth (.model id)

/-- Every model, in the order in which names are looked up. -/
def lookupOrder (c : Catalog) : List Model :=
  (c.below (c.models.size + 1) .root).eraseDups.filterMap c.model?

/-- The class that declares a relation for a model: the first of its ancestry that does
so itself. -/
def declarer? (c : Catalog) (m : Model) (name : String) : Option ModelId :=
  m.ancestry.findSome? fun
    | .model id => ((c.model? id).bind fun a => a.declared.lookup name).bind fun (owner, _) =>
        if owner = id then some id else none
    | _ => none

/-- The first model in the lookup order that bears the name, as a class or as a table. -/
def findByName? (c : Catalog) (name : Value) : Option Model :=
  c.lookupOrder.find? fun m => name.same (.text m.name) || name.same m.tableName

end Catalog

/-- The settings of a class as they are written; one left out is null. -/
structure Settings where
  table : Value
  softDeletes : Value
  morphClass : Value
  morphTypes : Value
  connection : Value
  defaultWith : Value
  hidden : Value

/-- A class as it is defined, before inheritance. -/
structure Definition where
  name : String
  key : String
  /-- Keys of the bases; none stands for the root alone. -/
  bases : Option (List String)
  fields : List Field
  relations : List (String × Declaration)
  static : Option (List (String × StaticEntry))
  scopes : List Scope
  settings : Settings

namespace Catalog

private def rootField : Field := ⟨"id", ⟨.any, true⟩, some .null⟩
private def deletionField : Field := ⟨"deleted_at", ⟨.time, true⟩, some .null⟩

/-- The order in which an ancestor is searched. -/
def orderOf (c : Catalog) : Ancestor → List Ancestor
  | .root => [.root]
  | .deletion => [.deletion]
  | .model id => ((c.model? id).map (·.ancestry)).getD []

def fieldsOf (c : Catalog) : Ancestor → List Field
  | .root => [rootField]
  | .deletion => [deletionField]
  | .model id => ((c.model? id).map (·.fields)).getD []

/-- The entries with `name` set to `a`; a name that is there keeps its place. -/
def put (entries : List (String × α)) (name : String) (a : α) : List (String × α) :=
  if entries.any (·.1 == name) then entries.map fun e => if e.1 == name then (name, a) else e
  else entries ++ [(name, a)]

/-- The fields of a class: the names in the order in which the ancestors bring them, farthest first;
a field is the one of the class itself, or of the first base that has it. -/
def inheritFields (c : Catalog) (own : List Field) (bases ancestors : List Ancestor) : List Field :=
  let names := (ancestors.reverse.flatMap fun a => (c.fieldsOf a).map (·.name)) ++ own.map (·.name)
  let pools := own.reverse :: bases.map c.fieldsOf
  names.eraseDups.filterMap fun name => pools.findSome? fun pool => pool.find? (·.name == name)

/-- The declared relations of a class: those of the ancestors, nearer ones taking the place of
farther ones, and then its own. -/
def inheritDeclared (c : Catalog) (self : ModelId) (own : List (String × Declaration))
    (ancestors : List Ancestor) : List (String × ModelId × Declaration) :=
  let inherited := ancestors.reverse.foldl (fun entries a => match a with
    | .model id => ((c.model? id).map (·.declared)).getD [] |>.foldl
      (fun entries (name, d) => put entries name d) entries
    | _ => entries) []
  own.foldl (fun entries (name, d) => put entries name (self, d)) inherited

/-- A setting of the first base that has one. -/
def fromBases (c : Catalog) (bases : List Ancestor) (root : Option α)
    (get : Model → Option α) :
    Option α :=
  bases.findSome? fun
    | .root => root
    | .deletion => none
    | .model id => (c.model? id).bind get

/-- The first value that is neither empty nor null. -/
def firstTruthy (values : List Value) : Value := (values.find? (·.truthy)).getD .null

def unlessNull (v : Value) : Option Value := if v.isNull then none else some v

/-- The items that a setting lists; those that stand in `otherwise` if it is null. -/
def listed (v : Value) (otherwise : List Value) : Except Error (List Value) :=
  if v.isNull then .ok otherwise
  else match v.items? with
    | some items => .ok items
    | none => .error .badType

/-- The catalog with one more class. Bases that contradict each other are the wrong bases. -/
def define (c : Catalog) (d : Definition) : Except Error Catalog := do
  let bases : List Ancestor ← match d.bases with
    | none => .ok [.root]
    | some keys => keys.mapM fun key => match c.byKey? key with
      | some m => .ok (.model m.id)
      | none => if key = "Model" then .ok .root else .error .noKey
  let inherited := (fromBases c bases (some false) fun m => some m.softDeletes).getD false
  let kw := d.settings
  let softDeletes := if kw.softDeletes.isNull then inherited else kw.softDeletes.truthy
  let marked := bases.any fun b => (c.orderOf b).contains .deletion
  let allBases := if softDeletes && !marked then bases ++ [.deletion] else bases
  let id := c.models.size
  match Linearization.of (.model id) allBases (allBases.map c.orderOf) with
  | none => .error .badType
  | some ancestry =>
    let ancestors := ancestry.drop 1
    let inheritedModels := ancestors.filterMap fun
      | .model id => c.model? id
      | _ => none
    let morphTypes ← if kw.morphTypes.truthy then listed kw.morphTypes [] else pure []
    let defaultWith ← listed kw.defaultWith
      ((fromBases c bases (some []) fun m => some m.defaultWith).getD [])
    let hidden ← listed kw.hidden ((fromBases c bases (some []) fun m => some m.hidden).getD [])
    if !hidden.all Value.isKey then throw .badType
    let model : Model :=
      { id := id
        name := d.name
        key := d.key
        ancestry := ancestry
        bases := allBases
        fields := c.inheritFields d.fields allBases ancestors
        namedTable := firstTruthy
          [kw.table, (fromBases c bases none (unlessNull ·.namedTable)).getD .null]
        softDeletes := softDeletes
        morphClass := kw.morphClass
        morphTypes := morphTypes
        connection := firstTruthy [kw.connection,
          (fromBases c bases (some (.text "default")) fun m => some m.connection).getD
            (.text "default")]
        defaultWith := defaultWith
        hidden := hidden
        declared := c.inheritDeclared id d.relations ancestors
        ownStatic := d.static
        static := (d.static.or (inheritedModels.findSome? (·.ownStatic))).getD []
        ownScopes := d.scopes.reverse
        scopes := d.scopes.reverse ++ inheritedModels.flatMap (·.ownScopes) }
    return ⟨c.models.push model⟩

end Catalog

end Relata
