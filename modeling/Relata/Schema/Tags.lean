import Relata.Schema.Catalog

/-!
Type tags: the values under which rows of other tables refer to a model. A tag map holds the aliases
that are registered; a model is also known by a tag of its own, by further tags, and by its name.
Tags are compared as values, and a tag that cannot be a key is the wrong kind of value. Aliases are
taken as they are given, so an alias may stand for a value that is no model.
-/

namespace Relata

structure TagMap where
  aliases : List (Value × Value)
deriving Inhabited

namespace TagMap

def empty : TagMap := ⟨[]⟩

/-- Adds aliases; one that is there is given a new model and keeps its place. -/
def register (t : TagMap) (pairs : List (Value × Value)) : TagMap :=
  ⟨pairs.foldl (fun entries (tag, v) => Value.put entries tag v) t.aliases⟩

def aliasesFor (t : TagMap) (v : Value) : List Value :=
  (t.aliases.filter (·.2.identical v)).map (·.1)

/-- The tag written for a model: its own, else its first alias, else its name. -/
def tagFor (t : TagMap) (m : Model) : Value :=
  match m.ownTag? with
  | some tag => tag
  | none => (t.aliasesFor (.model m.id)).headD (.text m.name)

/-- Every tag under which rows may refer to a model, each once. -/
def possibleTags (t : TagMap) (m : Model) : Except Error (List Value) :=
  let tags := m.morphTypes ++ m.ownTag?.toList ++ t.aliasesFor (.model m.id) ++ [.text m.name]
  if Value.areKeys tags then .ok (Value.distinct tags) else .error .badType

/-- What a tag stands for: by alias, else by the tag a class gives itself, else by name. It is null
if nothing bears the tag. -/
def modelFor (t : TagMap) (c : Catalog) (tag : Value) : Except Error Value :=
  if !tag.isKey then .error .badType
  else match Value.lookup? tag t.aliases with
    | some v => .ok v
    | none =>
      let found := (c.lookupOrder.find? fun m => m.morphClass.same tag).or (c.findByName? tag)
      .ok ((found.map fun m => .model m.id).getD .null)

/-- What a reference leads to: a model and nothing stand for themselves. -/
def resolve (t : TagMap) (c : Catalog) : Value → Except Error Value
  | .null => .ok .null
  | .model id => .ok (.model id)
  | tag => t.modelFor c tag

end TagMap

end Relata
