/-!
The kinds of relations, and the classes of kinds that behave alike.
-/

namespace Relata

inductive RelationKind where
  | hasOne
  | hasMany
  | belongsTo
  | belongsToMany
  | morphOne
  | morphMany
  | morphTo
  | morphOneOfMany
  | hasOneThrough
  | hasManyThrough
deriving DecidableEq, Inhabited

namespace RelationKind

/-- The kinds with the words they are written by. -/
def words : List (String × RelationKind) :=
  [("has_one", hasOne), ("has_many", hasMany), ("belongs_to", belongsTo),
    ("belongs_to_many", belongsToMany), ("morph_one", morphOne), ("morph_many", morphMany),
    ("morph_to", morphTo), ("morph_one_of_many", morphOneOfMany),
    ("has_one_through", hasOneThrough), ("has_many_through", hasManyThrough)]

def word : RelationKind → String
  | hasOne => "has_one"
  | hasMany => "has_many"
  | belongsTo => "belongs_to"
  | belongsToMany => "belongs_to_many"
  | morphOne => "morph_one"
  | morphMany => "morph_many"
  | morphTo => "morph_to"
  | morphOneOfMany => "morph_one_of_many"
  | hasOneThrough => "has_one_through"
  | hasManyThrough => "has_many_through"

theorem lookup_word (k : RelationKind) : words.lookup k.word = some k := by
  cases k <;> decide

/-- The relation holds one object or nothing, and not a list. -/
def isSingle : RelationKind → Bool
  | hasOne | belongsTo | morphOne | morphOneOfMany | morphTo | hasOneThrough => true
  | _ => false

/-- The related rows name the type of their owner. -/
def isMorphOwned : RelationKind → Bool
  | morphOne | morphMany | morphOneOfMany => true
  | _ => false

/-- The related rows are reached over a model in between. -/
def isThrough : RelationKind → Bool
  | hasOneThrough | hasManyThrough => true
  | _ => false

/-- The related rows are joined with another table, which holds the key of the parent. -/
def isJoined (k : RelationKind) : Bool := k == belongsToMany || k.isThrough

end RelationKind

/-- The row kept of many: the one with the greatest or the least value of a column. -/
inductive Extremum where
  | max
  | min
deriving DecidableEq, Inhabited

def Extremum.word : Extremum → String
  | max => "max"
  | min => "min"

/-- The aggregate function that finds the extremum. -/
def Extremum.function : Extremum → String
  | max => "MAX"
  | min => "MIN"

end Relata
