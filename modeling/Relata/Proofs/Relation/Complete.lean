import Relata.Loading.Eager
import Relata.Proofs.Relation.Derived

/-!
A relation that is resolved lacks no name that it needs. Which names are needed depends on its kind,
and all that is asked of a relation reads no others: so a descriptor may be given further names,
whichever these are, and every query for the relation stays the same.
-/

namespace Relata

namespace Descriptor

/-- The names that a relation of its kind is found by. A column by which one row of many is kept is among
them only where the kind always keeps one. -/
def needed (d : Descriptor) : List (Option String) :=
  match d.kind with
  | .hasOne | .hasMany => [d.foreignKey, d.localKey]
  | .belongsTo => [d.foreignKey, d.ownerKey]
  | .belongsToMany => [d.table, d.foreignPivotKey, d.relatedPivotKey, d.parentKey, d.relatedKey]
  | .morphOne | .morphMany => [d.morphName, d.typeColumn, d.idColumn, d.localKey]
  | .morphOneOfMany => [d.morphName, d.typeColumn, d.idColumn, d.localKey, d.column]
  | .morphTo => [d.morphName, d.typeColumn, d.idColumn]
  | .hasOneThrough | .hasManyThrough => [d.firstKey, d.secondKey, d.localKey, d.secondLocalKey]

/-- One row of many is kept only if there is a column to keep it by. -/
def isPlain (d : Descriptor) : Bool := d.kind == .hasOne || d.kind == .hasMany

/-- One row of many is kept, that with the extreme value of a column. -/
def isRanked (d : Descriptor) : Bool :=
  d.kind == .morphOneOfMany || d.isPlain && d.column.isSome

/-- Nothing is missing that a relation of its kind is found by. -/
structure Complete (d : Descriptor) : Prop where
  names : ∀ name ∈ d.needed, name.isSome
  aggregate : d.isRanked → d.aggregate.isSome

/-- Names that are there stay as they are, and nothing else is changed but names that are not. -/
structure Extends (d other : Descriptor) : Prop where
  kind : other.kind = d.kind
  target : other.target = d.target
  foreignKey : d.foreignKey.isSome → other.foreignKey = d.foreignKey
  localKey : d.localKey.isSome → other.localKey = d.localKey
  ownerKey : d.ownerKey.isSome → other.ownerKey = d.ownerKey
  table : d.table.isSome → other.table = d.table
  foreignPivotKey : d.foreignPivotKey.isSome → other.foreignPivotKey = d.foreignPivotKey
  relatedPivotKey : d.relatedPivotKey.isSome → other.relatedPivotKey = d.relatedPivotKey
  parentKey : d.parentKey.isSome → other.parentKey = d.parentKey
  relatedKey : d.relatedKey.isSome → other.relatedKey = d.relatedKey
  pivotColumns : other.pivotColumns = d.pivotColumns
  pivotAlias : other.pivotAlias = d.pivotAlias
  morphName : d.morphName.isSome → other.morphName = d.morphName
  typeColumn : d.typeColumn.isSome → other.typeColumn = d.typeColumn
  idColumn : d.idColumn.isSome → other.idColumn = d.idColumn
  column : d.column.isSome → other.column = d.column
  aggregate : d.aggregate.isSome → other.aggregate = d.aggregate
  through : other.through = d.through
  firstKey : d.firstKey.isSome → other.firstKey = d.firstKey
  secondKey : d.secondKey.isSome → other.secondKey = d.secondKey
  secondLocalKey : d.secondLocalKey.isSome → other.secondLocalKey = d.secondLocalKey
  constraints : other.constraints = d.constraints

/-- Both are the same in all that a relation of their kind is found by. -/
structure Agrees (d other : Descriptor) : Prop where
  kind : other.kind = d.kind
  target : other.target = d.target
  needed : other.needed = d.needed
  pivotColumns : other.pivotColumns = d.pivotColumns
  pivotAlias : other.pivotAlias = d.pivotAlias
  column : d.isPlain → other.column = d.column
  aggregate : d.isRanked → other.aggregate = d.aggregate
  through : other.through = d.through
  constraints : other.constraints = d.constraints

/-- All that is asked of a relation gives the same for both: the keys that parents and related rows
are matched by, the query for the rows of some parents, the link of a subquery, and loading. -/
structure ReadAlike (d other : Descriptor) : Prop where
  parentAttribute : other.parentAttribute = d.parentAttribute
  relatedColumn : other.relatedColumn = d.relatedColumn
  relationQuery (env : Env) (parent : Model) (keys : List Value) (columns : Value)
    (tagKeys : Bool) : env.relationQuery other parent keys columns tagKeys =
      env.relationQuery d parent keys columns tagKeys
  link (env : Env) (related : Model) (parent : String) :
    Build.link env other related parent = Build.link env d related parent
  fetchRelated {τ : Type} (load : LoadPaths τ) (loader : Loader) (parent : Model) (path : String)
    (objects : List Value) : Loader.fetchRelated load loader other parent path objects =
      Loader.fetchRelated load loader d parent path objects
  fetchMorphTo {τ : Type} (load : LoadPaths τ) (loader : Loader) (path : String)
    (objects : List Value) : d.kind = .morphTo →
      Loader.fetchMorphTo load loader other path objects =
        Loader.fetchMorphTo load loader d path objects

/-! ### Defaults -/

section

variable (d : Descriptor) (parent : String) (nameOf : Value → String) (name : String)

theorem extends_withDefaults : d.Extends (d.withDefaults parent nameOf name) := by
  have kept {α : Type} {x : Option α} (default : α) (there : x.isSome) : some (x.getD default) = x :=
    Option.getD_of_ne_none (Option.isSome_iff_ne_none.mp there) default
  obtain ⟨kind, _, _, _, _, _, _, _, _, _, _, _, _, _, _, column⟩ := d
  cases kind
  case hasOne | hasMany =>
    -- An extremum is filled in only where there is a column.
    cases column <;> constructor <;> first | rfl | exact fun _ => rfl | exact kept _
  all_goals constructor <;> first | rfl | exact fun _ => rfl | exact kept _

theorem complete_withDefaults : (d.withDefaults parent nameOf name).Complete := by
  obtain ⟨kind, _, _, _, _, _, _, _, _, _, _, _, _, _, _, column⟩ := d
  cases kind
  case hasOne | hasMany =>
    cases column
    · exact ⟨List.all_eq_true.mp rfl, nofun⟩
    · exact ⟨List.all_eq_true.mp rfl, fun _ => rfl⟩
  case morphOneOfMany => exact ⟨List.all_eq_true.mp rfl, fun _ => rfl⟩
  all_goals exact ⟨List.all_eq_true.mp rfl, nofun⟩

/-- What is complete has no name left to fill in. -/
theorem withDefaults_of_complete {d : Descriptor} (complete : d.Complete) (parent : String)
    (nameOf : Value → String) (name : String) : d.withDefaults parent nameOf name = d := by
  obtain ⟨names, aggregate⟩ := complete
  obtain ⟨kind, _, _, _, _, _, _, _, _, _, _, _, _, _, _, column⟩ := d
  cases kind <;> simp only [needed, List.forall_mem_cons, Option.isSome_iff_exists] at names
  case hasOne | hasMany =>
    obtain ⟨⟨_, rfl⟩, ⟨_, rfl⟩, -⟩ := names
    cases column with
    | none => rfl
    | some column =>
      obtain ⟨_, rfl⟩ := Option.isSome_iff_exists.mp (aggregate rfl)
      rfl
  case belongsTo =>
    obtain ⟨⟨_, rfl⟩, ⟨_, rfl⟩, -⟩ := names
    rfl
  case belongsToMany =>
    obtain ⟨⟨_, rfl⟩, ⟨_, rfl⟩, ⟨_, rfl⟩, ⟨_, rfl⟩, ⟨_, rfl⟩, -⟩ := names
    rfl
  case morphOne | morphMany | hasOneThrough | hasManyThrough =>
    obtain ⟨⟨_, rfl⟩, ⟨_, rfl⟩, ⟨_, rfl⟩, ⟨_, rfl⟩, -⟩ := names
    rfl
  case morphOneOfMany =>
    obtain ⟨⟨_, rfl⟩, ⟨_, rfl⟩, ⟨_, rfl⟩, ⟨_, rfl⟩, ⟨_, rfl⟩, -⟩ := names
    obtain ⟨_, rfl⟩ := Option.isSome_iff_exists.mp (aggregate rfl)
    rfl
  case morphTo =>
    obtain ⟨⟨_, rfl⟩, ⟨_, rfl⟩, ⟨_, rfl⟩, -⟩ := names
    rfl

end

/-! ### What is read -/

section

variable {d other : Descriptor}

/-- Further names for what is complete are none that it needs. -/
theorem Complete.agrees (complete : d.Complete) (extends_ : d.Extends other)
    (column : d.isPlain → other.column = d.column) : d.Agrees other where
  kind := extends_.kind
  target := extends_.target
  needed := by
    have names := complete.names
    unfold needed at names ⊢
    rw [extends_.kind]
    cases kind : d.kind <;> rw [kind] at names <;>
      simp only [List.forall_mem_cons] at names ⊢
    case hasOne | hasMany =>
      rw [extends_.foreignKey names.1, extends_.localKey names.2.1]
    case belongsTo => rw [extends_.foreignKey names.1, extends_.ownerKey names.2.1]
    case belongsToMany =>
      rw [extends_.table names.1, extends_.foreignPivotKey names.2.1,
        extends_.relatedPivotKey names.2.2.1, extends_.parentKey names.2.2.2.1,
        extends_.relatedKey names.2.2.2.2.1]
    case morphOne | morphMany =>
      rw [extends_.morphName names.1, extends_.typeColumn names.2.1, extends_.idColumn names.2.2.1,
        extends_.localKey names.2.2.2.1]
    case morphOneOfMany =>
      rw [extends_.morphName names.1, extends_.typeColumn names.2.1, extends_.idColumn names.2.2.1,
        extends_.localKey names.2.2.2.1, extends_.column names.2.2.2.2.1]
    case morphTo =>
      rw [extends_.morphName names.1, extends_.typeColumn names.2.1, extends_.idColumn names.2.2.1]
    case hasOneThrough | hasManyThrough =>
      rw [extends_.firstKey names.1, extends_.secondKey names.2.1, extends_.localKey names.2.2.1,
        extends_.secondLocalKey names.2.2.2.1]
  pivotColumns := extends_.pivotColumns
  pivotAlias := extends_.pivotAlias
  column := column
  aggregate ranked := extends_.aggregate (complete.aggregate ranked)
  through := extends_.through
  constraints := extends_.constraints

variable (agrees : d.Agrees other)

include agrees

theorem Agrees.parentAttribute : other.parentAttribute = d.parentAttribute := by
  have names := agrees.needed
  unfold Descriptor.needed at names
  unfold Descriptor.parentAttribute
  rw [agrees.kind] at names ⊢
  cases kind : d.kind <;> simp_all

theorem Agrees.relatedColumn : other.relatedColumn = d.relatedColumn := by
  have names := agrees.needed
  unfold Descriptor.needed at names
  unfold Descriptor.relatedColumn
  rw [agrees.kind] at names ⊢
  cases kind : d.kind <;> simp_all

theorem Agrees.link (env : Env) (related : Model) (parent : String) :
    Build.link env other related parent = Build.link env d related parent := by
  have names := agrees.needed
  unfold Descriptor.needed at names
  unfold Build.link Lookup.throughModel
  rw [agrees.kind] at names ⊢
  rw [agrees.through]
  cases kind : d.kind <;> simp_all

theorem Agrees.linkKeys (env : Env) (parent related : Model) (keys : List Value)
    (tagKeys : Bool) :
    Build.linkKeys env other parent related keys tagKeys =
      Build.linkKeys env d parent related keys tagKeys := by
  have names := agrees.needed
  have column := agrees.column
  have aggregate := agrees.aggregate
  unfold Descriptor.needed at names
  unfold Build.linkKeys Lookup.throughModel Build.onlyExtreme
  rw [agrees.kind] at names ⊢
  rw [agrees.through, agrees.pivotColumns, agrees.pivotAlias]
  cases kind : d.kind
  case hasOne | hasMany =>
    -- Without a column no extremum is read.
    cases there : d.column <;> simp_all [isPlain, isRanked]
  all_goals simp_all [isRanked]

theorem Agrees.of_morphTo (morph : d.kind = .morphTo) :
    other.morphName = d.morphName ∧ other.typeColumn = d.typeColumn ∧
      other.idColumn = d.idColumn := by
  have names := agrees.needed
  unfold Descriptor.needed at names
  rw [agrees.kind, morph] at names
  simpa using names

theorem Agrees.relationQuery (env : Env) (parent : Model) (keys : List Value) (columns : Value)
    (tagKeys : Bool) : env.relationQuery other parent keys columns tagKeys =
      env.relationQuery d parent keys columns tagKeys := by
  unfold Env.relationQuery Lookup.relatedModel
  rw [agrees.kind]
  split
  · next morph =>
    rw [(agrees.of_morphTo (eq_of_beq morph)).1]
    rfl
  · unfold Build.restrictColumns
    simp only [agrees.target, agrees.constraints, agrees.kind, agrees.relatedColumn,
      agrees.linkKeys]

theorem Agrees.fetchRelated {τ : Type} (load : LoadPaths τ) (loader : Loader) (parent : Model)
    (path : String) (objects : List Value) :
    Loader.fetchRelated load loader other parent path objects =
      Loader.fetchRelated load loader d parent path objects := by
  unfold Loader.fetchRelated Loader.fetchChunk Loader.chunkQuery Loader.tagColumn
  simp only [agrees.relationQuery, agrees.relatedColumn, agrees.parentAttribute, agrees.kind]

theorem Agrees.fetchMorphTo {τ : Type} (load : LoadPaths τ) (loader : Loader) (path : String)
    (objects : List Value) (morph : d.kind = .morphTo) :
    Loader.fetchMorphTo load loader other path objects =
      Loader.fetchMorphTo load loader d path objects := by
  obtain ⟨-, type, id⟩ := agrees.of_morphTo morph
  unfold Loader.fetchMorphTo Loader.targetsByTag Loader.fetchTargets Loader.targetQuery
  simp only [type, id, agrees.constraints]

theorem Agrees.readAlike : d.ReadAlike other where
  parentAttribute := agrees.parentAttribute
  relatedColumn := agrees.relatedColumn
  relationQuery := agrees.relationQuery
  link := agrees.link
  fetchRelated := agrees.fetchRelated
  fetchMorphTo := agrees.fetchMorphTo

end

/-- A complete relation names what its parents are matched by. -/
theorem Complete.parentAttribute {d : Descriptor} (complete : d.Complete) :
    d.parentAttribute.isSome := by
  have names := complete.names
  unfold needed at names
  unfold Descriptor.parentAttribute
  cases kind : d.kind <;> simp_all

/-- It names what related rows are matched by, unless they carry the key of their parent or name
their target themselves. -/
theorem Complete.relatedColumn {d : Descriptor} (complete : d.Complete) :
    d.relatedColumn.isSome ↔ ¬ d.kind.isJoined ∧ d.kind ≠ .morphTo := by
  have names := complete.names
  unfold needed at names
  unfold Descriptor.relatedColumn
  cases kind : d.kind <;> simp_all [RelationKind.isJoined, RelationKind.isThrough]

end Descriptor

namespace Lookup

/-- A relation that is resolved lacks no name: all that it needs is there, and filling in whatever
else is missing makes no difference to what is asked of it. Defaults are no more than that; they
leave nothing to fill in, and names that are there as they are. -/
theorem resolved_complete {l : Lookup} {m : Model} {name : Value} {d : Descriptor}
    (h : l.resolve m name = .ok (some d)) :
    d.Complete ∧ d.parentAttribute.isSome ∧
    (d.relatedColumn.isSome ↔ ¬ d.kind.isJoined ∧ d.kind ≠ .morphTo) ∧
    (∀ other, d.Extends other → (d.isPlain → other.column = d.column) → d.ReadAlike other) ∧
    ∀ (own : Descriptor) (parent : String) (nameOf : Value → String) (relation : String),
      own.Extends (own.withDefaults parent nameOf relation) ∧
      ∀ (parent' : String) (nameOf' : Value → String) (relation' : String),
        (own.withDefaults parent nameOf relation).withDefaults parent' nameOf' relation' =
          own.withDefaults parent nameOf relation := by
  obtain ⟨own, owner, text, rfl⟩ := exists_withDefaults h
  have complete := own.complete_withDefaults owner l.nameOf text
  refine ⟨complete, complete.parentAttribute, complete.relatedColumn, fun other extends_ column =>
    (complete.agrees extends_ column).readAlike, fun own parent nameOf relation => ?_⟩
  exact ⟨own.extends_withDefaults parent nameOf relation,
    Descriptor.withDefaults_of_complete (own.complete_withDefaults parent nameOf relation)⟩

end Lookup

/-- The posts of an author as a static table describes them, with no key. -/
def postsWithoutKey : Descriptor :=
  { (default : Descriptor) with
    kind := .hasMany
    target := .text "Post"
    pivotAlias := "pivot" }

/-- The posts of an author as they are resolved. -/
def postsOfAuthor : Descriptor :=
  { postsWithoutKey with
    foreignKey := some "author_id"
    localKey := some "id" }

/-- A table in between and an extremum for the posts would be read by nothing, and in the place of
another relation on another class they would still be the same. -/
theorem posts_complete :
    writersLookup.resolve writer (.text "posts") = .ok (some postsOfAuthor) ∧
    postsOfAuthor.Complete ∧
    postsOfAuthor.ReadAlike
      { postsOfAuthor with table := some "author_post", aggregate := some .min } ∧
    postsWithoutKey.withDefaults "Author" writersLookup.nameOf "posts" = postsOfAuthor ∧
    postsOfAuthor.withDefaults "Novelist" writersLookup.nameOf "books" = postsOfAuthor := by
  have resolved : writersLookup.resolve writer (.text "posts") = .ok (some postsOfAuthor) := rfl
  obtain ⟨complete, -, -, alike, completes⟩ := Lookup.resolved_complete resolved
  refine ⟨resolved, complete, alike _ ?_ fun _ => rfl, rfl,
    (completes postsWithoutKey "Author" writersLookup.nameOf "posts").2 _ _ _⟩
  constructor <;> first | rfl | exact fun _ => rfl | exact nofun

end Relata
