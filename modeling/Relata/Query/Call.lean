import Relata.Query.Where
import Relata.Store.Glimpse

/-!
Builder calls by name. A call may hold others, inside a group, a refinement or a scope, and those
are made through `inner`; so each step is written once, for any way of making the calls below it,
and `callUpTo` ties the knot to a depth. What a call answers is the query itself, another query, or
a value that is none. The holes in its arguments are filled when a call is made, and not before: a
refinement that is never called asks for nothing.
-/

namespace Relata

/-- What a builder call answers. -/
inductive Answer where
  | self
  | other (q : Query)
  | value (v : Value)

/-- A call that answers nothing stands for the query itself. -/
def Answer.orSelf : Answer → Answer
  | .value .null => .self
  | answer => answer

/-- A way of making builder calls. -/
abbrev Caller := Call → Build Answer

namespace Build

open Sql (Clause Junction Fragment Test)

section Calls

variable (env : Env) (inner : Caller)

/-- Runs a step on another query, which is then what answering itself means. -/
def answerOn (q : Query) (step : Build Answer) : Build Answer := do
  match ← on q step with
  | (.self, after) => return .other after
  | (answer, _) => return answer

/-- Makes one more call on what the last one answered. -/
def callOn (answer : Answer) (c : Call) : Build Answer :=
  match answer with
  | .self => inner c
  | .other q => answerOn q (inner c)
  | .value _ => throw .noAttribute

/-- Makes calls one after the other, each on what the one before it answered. -/
def chain (calls : List Call) : Build Answer := calls.foldlM (callOn inner) .self

/-- Calls a refinement with the query. -/
def refine (callback : Value) : Build Answer :=
  match callback with
  | .recipe calls answers => do
    let answer ← chain inner calls
    return if answers then answer else .value .null
  | _ => throw .badType

/-- A refinement that may be left out. -/
def refineIfGiven (callback : Value) : Build Unit :=
  if callback.isNull then pure () else discard (refine inner callback)

/-- The conditions that a refinement gives a blank query on the same table, as a group. -/
def group (target : Target) (junction : Junction) (negated : Bool) (callback : Value) :
    Build Clause := do
  let q ← get
  let table := q.select.table
  if !table.isNull && table.asText?.isNone then throw (.invalid [⟨["table_name"], .notText⟩])
  let (_, sub) ← on (.blank q.select.source table) (refine inner callback)
  return .group junction negated (match target with
    | .conditions => sub.select.conditions
    | .having => sub.select.having)

/-- Adds a comparison, or the group that a refinement makes. -/
def compareOrGroup (target : Target) (junction : Junction) (column : Value)
    (operator value : Option Value) : Build Unit := do
  if column.isCallable then addTo target (← group inner target junction false column)
  else addTo target (← comparison junction column operator value)

/-- Adds the negation of a group or of a comparison. -/
def whereNot (column : Value) (operator value : Option Value) : Build Unit := do
  if column.isCallable then addCondition (← group inner .conditions .and true column)
  else match value with
    | none => addCondition (← match operator with
      | some v => comparison .and column (some (.text "!=")) (some v)
      | none => comparison .and column (some (.text "!=")) none)
    | some v => match operator with
      | some (.text o) =>
        let opposite := (negatedOperator? (Text.uppercase o)).getD o
        addCondition (← comparison .and column (some (.text opposite)) (some v))
      | _ => throw .noAttribute

/-- The query that a draft starts from: a new one on a model, or that of a variable. -/
def draftStart (base : Value) : Except Error Query := do
  match base with
  | .model id => match env.catalog.model? id with
    | some m => m.query
    | none => throw .noAttribute
  | .variable name path => match ← env.read name path with
    | .value (.query id) => match env.queries[id]? with
      | some q => pure q
      | none => throw .noAttribute
    | _ => throw .noAttribute
  | _ => throw .noAttribute

/-- What comes of the calls of a draft. -/
def buildDraft (base : Value) (calls : List Call) : Build Answer := do
  answerOn (← ofExcept (draftStart env base)) (chain inner calls)

mutual

/-- The value with its holes filled. A draft stays one, unless its calls end with a value that is
no query. -/
def settle : Value → Build Value
  | .variable name path => do
    match ← ofExcept (env.read name path) with
    | .value v => return v
    | _ => throw .noAttribute
  | .thrown e => throw e
  | .parameter _ => throw .badInput
  | .list items => .list <$> settleItems items
  | .tuple items => .tuple <$> settleItems items
  | .dict entries => do ofExcept (env.dictOf (← settleEntries entries))
  | .draft base calls => do
    match ← buildDraft env inner base calls with
    | .value v => return v
    | _ => return .draft base calls
  | v => return v

def settleItems : List Value → Build (List Value)
  | [] => return []
  | v :: rest => return (← settle v) :: (← settleItems rest)

def settleEntries : List (Value × Value) → Build (List (Value × Value))
  | [] => return []
  | (k, v) :: rest => return (← settle k, ← settle v) :: (← settleEntries rest)

def settleNamed : List (String × Value) → Build (List (String × Value))
  | [] => return []
  | (name, v) :: rest => return (name, ← settle v) :: (← settleNamed rest)

end

/-- A query given as an argument. -/
def queryOf (v : Value) : Build Query :=
  match v with
  | .query id => match env.queries[id]? with
    | some q => pure q
    | none => throw .noAttribute
  | .draft base calls => do
    match ← buildDraft env inner base calls with
    | .other q => return q
    | _ => throw .noAttribute
  | .relation _ _ => throw (.invalid [⟨["query"], .notModel⟩])
  | _ => throw .noAttribute

/-- A value as it is gone through, a draft as the query that it becomes. -/
def opened (v : Value) : Build Value := do
  match v with
  | .draft base calls => match ← buildDraft env inner base calls with
    | .other q => return q.pairs
    | _ => return v
  | v => return env.opened v

def union (all : Bool) (other : Value) : Build Unit := do
  let q ← queryOf env inner other
  modify fun self => { self with branches := self.branches ++ [(all, q)] }

/-- The model of the query. -/
def model : Build Model := do
  match env.catalog.model? (← get).select.source.model with
  | some m => pure m
  | none => throw .noAttribute

def require (relation : Value) : Build Descriptor := do
  ofExcept (env.require (← model env) relation)

/-- The fixed target that filters on existence ask of a relation. -/
def fixedTarget : String := "a relation with a fixed target model (see where_has_morph)"

/-- What a relation joins and links to a parent table, in a subquery on the related table. -/
structure Link where
  source : String
  conditions : List Fragment

/-- The link of a relation to the rows of `parent`. -/
def link (d : Descriptor) (related : Model) (parent : String) : Build Link := do
  let table := related.table
  let name := Descriptor.written
  match d.kind with
  | .hasOne | .hasMany =>
    return ⟨table, [.plain s!"{table}.{name d.foreignKey} = {parent}.{name d.localKey}"]⟩
  | .belongsTo =>
    return ⟨table, [.plain s!"{table}.{name d.ownerKey} = {parent}.{name d.foreignKey}"]⟩
  | .morphOne | .morphMany | .morphOneOfMany =>
    let tags ← ofExcept (env.tags.possibleTags (← model env))
    let marks := ", ".intercalate (tags.map fun _ => "?")
    return ⟨table,
      [.plain s!"{table}.{name d.idColumn} = {parent}.{name d.localKey}",
        ⟨s!"{table}.{name d.typeColumn} IN ({marks})", tags⟩]⟩
  | .belongsToMany =>
    let pivot := name d.table
    return ⟨s!"{table} JOIN {pivot} ON {table}.{name d.relatedKey} = " ++
        s!"{pivot}.{name d.relatedPivotKey}",
      [.plain s!"{pivot}.{name d.foreignPivotKey} = {parent}.{name d.parentKey}"]⟩
  | .hasOneThrough | .hasManyThrough =>
    let between := (← ofExcept (env.throughModel d)).table
    return ⟨s!"{table} JOIN {between} ON {table}.{name d.secondKey} = " ++
        s!"{between}.{name d.secondLocalKey}",
      [.plain s!"{between}.{name d.firstKey} = {parent}.{name d.localKey}"]⟩
  | .morphTo => throw .badType

/-- Fragments with a word between them. -/
def separated (word : String) : List Fragment → Fragment
  | [] => .empty
  | [f] => f
  | f :: rest => f ++ .plain word ++ separated word rest

/-- The conditions of a query on `table`, if it has any, to follow others after AND. -/
def furtherConditions (q : Query) (table : String) : Fragment :=
  let compiled := Clause.compile (q.select.whereList table)
  if compiled.text.isEmpty then .empty else .plain " AND (" ++ compiled ++ .plain ")"

/-- The rest of a subquery on the rows that a relation links to a row of this query, after the
selected expression. -/
def relatedRows (relation callback : Value) : Build Fragment := do
  let d ← require env relation
  if d.kind == .morphTo then throw (.relationKind relation.shown fixedTarget "morph_to")
  let parent := (← get).select.from_
  let related ← ofExcept (env.relatedModel d)
  let base ← ofExcept related.query
  let (_, sub) ← on base do
    discard (chain inner d.constraints)
    refineIfGiven inner callback
  let further := furtherConditions sub related.table
  let link ← link env d related parent
  return .plain s!" FROM {link.source} WHERE " ++ separated " AND " link.conditions ++ further

def existsQuery (relation callback : Value) : Build Fragment := do
  return .plain "SELECT 1" ++ (← relatedRows env inner relation callback)

def countQuery (relation callback : Value) : Build Fragment := do
  return .plain "SELECT COUNT(*)" ++ (← relatedRows env inner relation callback)

/-- Keeps the rows with related rows: any at all, or as many as a comparison of their
number asks. -/
def whereHas (junction : Junction) (relation callback operator count : Value) : Build Unit := do
  let condition : Fragment ←
    if operator.isNull || count.isNull then
      pure (.plain "EXISTS (" ++ (← existsQuery env inner relation callback) ++ .plain ")")
    else
      pure (.plain "(" ++ (← countQuery env inner relation callback) ++
        ⟨s!") {env.shown operator} ?", [count]⟩)
  addFragment junction condition "where_has"

/-- Keeps the rows with so many related rows; at least one is existence. -/
def has (junction : Junction) (relation operator count : Value) : Build Unit :=
  if operator.same (.text ">=") && count.same (.int 1) then
    whereHas env inner junction relation .null .null .null
  else whereHas env inner junction relation .null operator count

def doesntHave (junction : Junction) (relation callback : Value) : Build Unit := do
  let sub ← existsQuery env inner relation callback
  addFragment junction (.plain "NOT EXISTS (" ++ sub ++ .plain ")") "doesnt_have"

/-- A refinement by one comparison. -/
def comparing (column : Value) (operator value : Option Value) : Value :=
  if column.isCallable then column
  else
    let named := (operator.map fun v => ("operator", v)).toList ++
      (value.map fun v => ("value", v)).toList
    .recipe [.mk "where" [column] named] false

def withWhereHas (relation callback : Value) : Build Unit := do
  whereHas env inner .and relation callback .null .null
  with_ relation callback

/-- The relations to be counted, each with its refinement. -/
def counted (relations : Value) : Build (List (Value × Value)) :=
  match relations with
  | .text _ => pure [(relations, .null)]
  | .dict entries => pure entries
  | _ => do return (← itemsOf relations).map (·, .null)

/-- Selects the number of related rows of each relation. -/
def withCount (relations : Value) : Build Unit := do
  (← counted relations).forM fun (relation, callback) => do
    let count ← countQuery env inner relation callback
    let name := String.ofList (relation.shown.toList.map fun c => if c = '.' then '_' else c)
    selectRaw (.text s!"({count.text}) AS {name}_count") (.list count.values)

/-- The only relation through which rows of this model belong to `owner`. -/
def inferOwner (owner : Value) : Build String := do
  let self ← model env
  let ownerModel := (env.modelOfValue? owner).map (·.id)
  let candidates ← self.relationNames.filterM fun name => do
    let d ← require env (.text name)
    if d.kind != .belongsTo then return false
    return some (← ofExcept (env.relatedModel d)).id == ownerModel
  match candidates with
  | [name] => return name
  | _ => throw (.relationNotFound self.name (Text.lowercase (env.className owner)))

/-- An attribute that a value has to have. -/
def attributeOf (v : Value) (name : String) : Build Value := do
  match ← ofExcept (env.glimpse v name) with
  | .value a => return a
  | _ => throw .noAttribute

/-- Keeps no rows. -/
def whereNothing : Build Unit := addRaw .conditions .and (.text "0=1") .null "where_raw"

/-- Keeps the rows that belong to one of the items by a relation; `several` were asked for, or
just one. -/
def whereOwned (several : Bool) (items : List Value) (relation : Value) : Build Unit := do
  let d ← require env relation
  if d.kind != .belongsTo then throw (.relationKind relation.shown "belongs_to" d.kind.word)
  let keys ← items.mapM fun item => attributeOf env item (Descriptor.written d.ownerKey)
  match keys.filter (!·.isNull) with
  | [] => whereNothing
  | key :: more =>
    let column := Value.text (Descriptor.written d.foreignKey)
    if several then whereIn .and false column (.list (key :: more))
    else addCondition (← comparison .and column (some key) none)

/-- Keeps the rows that belong to an object, or to one of a list of objects. -/
def whereBelongsTo (related relation : Value) : Build Unit := do
  let several := env.members? related
  let items := ((several.getD [related]).filter (!·.isNull))
  match items with
  | [] => whereNothing
  | first :: _ =>
    let relation ← if relation.isNull then (.text <$> inferOwner env first) else pure relation
    whereOwned env several.isSome items relation

/-- A relation whose target depends on each row. -/
def requireMorphTo (relation : Value) : Build Descriptor := do
  let d ← require env relation
  if d.kind != .morphTo then throw (.relationKind relation.shown "morph_to" d.kind.word)
  return d

/-- The condition that the target has a tag, which stands for the model `found`, and satisfies the
refinement. -/
def targetWithTag (d : Descriptor) (parent : String) (callback found tag : Value) :
    Build Fragment := do
  if found.isNull then throw (.unresolvedTag (env.shown tag))
  let related ← ofExcept (env.asModel found)
  let base ← ofExcept related.query
  let (_, sub) ← on base (refineIfGiven inner callback)
  let table := related.table
  let idColumn := Descriptor.written d.idColumn
  let typeColumn := Descriptor.written d.typeColumn
  let target : Fragment :=
    .plain s!"SELECT 1 FROM {table} WHERE {table}.id = {parent}.{idColumn}" ++
      furtherConditions sub table
  return ⟨s!"({parent}.{typeColumn} = ? AND EXISTS (", [tag]⟩ ++ target ++ .plain "))"

/-- The same for a target of one type, given by a model or by its tag. -/
def targetOfType (d : Descriptor) (parent : String) (callback type : Value) :
    Build Fragment := do
  let tag ← match type with
    | .text tag => pure (.text tag)
    | type => ofExcept (env.tagOf env.tags type)
  targetWithTag env inner d parent callback (← ofExcept (env.tags.modelFor env.catalog tag)) tag

/-- Keeps the rows whose target is of one of the types and satisfies the refinement. -/
def whereHasMorph (junction : Junction) (relation types callback : Value) : Build Unit := do
  let d ← requireMorphTo env relation
  let parent := (← get).select.from_
  let types := (env.members? types).getD [types]
  let parts ← types.mapM (targetOfType env inner d parent callback)
  let whole := if parts.isEmpty then .plain "0=1" else separated " OR " parts
  addFragment junction whole "where_has_morph"

/-- Keeps the rows whose target is the object. -/
def whereMorphedTo (relation target : Value) : Build Unit := do
  let d ← requireMorphTo env relation
  let tag := env.classTag env.tags target
  addCondition (← comparison .and (.text (Descriptor.written d.typeColumn)) (some tag) none)
  let id ← attributeOf env target "id"
  addCondition (← comparison .and (.text (Descriptor.written d.idColumn)) (some id) none)

/-- Keeps the rows in which a column has its extreme value over the rows of this query. -/
def ofMany (column aggregate : Value) : Build Unit := do
  let word ← match aggregate with
    | .text s => pure (Text.lowercase s)
    | _ => throw .noAttribute
  let extremum : Extremum ← match word with
    | "max" => pure .max
    | "min" => pure .min
    | _ => throw (.badAggregate word)
  let q ← get
  let sub := { q.select with
    columns := [.text s!"{extremum.function}({column.shown}) AS aggregate_value"]
    bindings := []
    orders := []
    limit := .null
    offset := .null }
  let body ← ofExcept sub.body
  addFragment .and (.plain s!"{column.shown} = (" ++ body ++ .plain ")") "where_raw"
  orderBy column (.text (if extremum = .max then "desc" else "asc"))
  limit (.int 1)

/-- Applies a scope of the model with arguments; its result replaces the query if it has one. -/
def scope (name : Value) (args : List Value) : Build Answer := do
  let m ← model env
  match m.scopes.find? (·.name == name.shown) with
  | none => throw (.noScope m.name name.shown)
  | some s =>
    let answer ← chain inner (Value.fillCalls args s.calls)
    return if s.answers then answer.orSelf else .self

/-- A statement as a value: the text and the list of values. -/
def pair (f : Fragment) : Value := .tuple [.text f.text, .list f.values]

/-- The whole statement past the guard. -/
def checkedStatement (context : String) : Build Fragment := do
  ofExcept ((← get).statement.checked context)

/-- Values given for placeholders, as they are gone through. -/
def givenBindings (v : Value) : Build Value :=
  if env.truthy v then opened env inner v else return .null

/-- What names paths, as it is gone through; collections among its restrictions are lists. -/
def givenPaths : Value → Build Value
  | .dict entries => return .dict (entries.map fun (path, v) => (path, env.listed v))
  | v => opened env inner v

def givenNames (args : List (Option Value)) : List Value :=
  args.reduceOption.map env.listed

def textOf (v : Value) : Value := .text (env.shown v)

/-- A step that answers the query itself. -/
def done (step : Build Unit) : Build Answer := do step; return .self

/-- Makes a call to a method whose arguments are bound. -/
def perform (m : Method) (args : List (Option Value)) : Build Answer :=
  match m with
  | .table => do
    let [some name] := args | throw .badType
    done <| modifySelect fun s => { s with table := env.listed name }
  | .select => done (select (givenNames env args))
  | .addSelect => done (addSelect (givenNames env args))
  | .selectRaw => do
    let [some text, some bindings] := args | throw .badType
    done do selectRaw (← opened env inner text) (← givenBindings env inner bindings)
  | .distinct => do
    let [] := args | throw .badType
    done <| modifySelect fun s => { s with distinct := true }
  | .join kind => match args with
    | [some table] => done (join kind table .null .null .null)
    | [some table, some first, some operator, some second] =>
      done (join kind table first operator second)
    | _ => throw .badType
  | .where_ j => do
    let [some column, operator, value] := args | throw .badType
    done (compareOrGroup inner .conditions j column operator value)
  | .whereNot => do
    let [some column, operator, value] := args | throw .badType
    done (whereNot inner column operator value)
  | .whereIn j negated => do
    let [some column, some values] := args | throw .badType
    done do whereIn j negated column (← opened env inner values)
  | .whereNull j negated => do
    let [some column] := args | throw .badType
    done (whereNull j negated column)
  | .whereBetween j negated => do
    let [some column, some values] := args | throw .badType
    done do whereBetween j negated column (← opened env inner values)
  | .whereRaw j => do
    let [some text, some bindings] := args | throw .badType
    let context := if j = .or then "or_where_raw" else "where_raw"
    done do addRaw .conditions j text (← givenBindings env inner bindings) context
  | .whereColumn j => do
    let [some first, some operator, second] := args | throw .badType
    done (whereColumn j (textOf env first) (textOf env operator) (second.map (textOf env)))
  | .whereLike negated => do
    let [some column, some value] := args | throw .badType
    let operator := if negated then "NOT LIKE" else "LIKE"
    done (compareOrGroup inner .conditions .and column (some (.text operator)) (some value))
  | .whereEach every => do
    let [some columns, some operator, some value] := args | throw .badType
    done do whereEach every (← opened env inner columns) operator value
  | .wherePart function => do
    let [some column, some operator, value] := args | throw .badType
    let column := Value.text s!"{function}({env.shown column})"
    done (compareOrGroup inner .conditions .and column (some operator) value)
  | .groupBy => done (groupBy (givenNames env args))
  | .having j => do
    let [some column, operator, value] := args | throw .badType
    done (compareOrGroup inner .having j column operator value)
  | .havingRaw => do
    let [some text, some bindings] := args | throw .badType
    done do addRaw .having .and text (← givenBindings env inner bindings) "having_raw"
  | .orderBy => do
    let [some column, some direction] := args | throw .badType
    done (orderBy column direction)
  | .orderByDescending => do
    let [some column] := args | throw .badType
    done (orderBy column (.text "desc"))
  | .byAge newest => do
    let [some column] := args | throw .badType
    done (orderBy column (.text (if newest then "desc" else "asc")))
  | .randomOrder => do
    let [] := args | throw .badType
    done <| modifySelect fun s => { s with orders := s.orders ++ [.random] }
  | .reorder => do
    let [some column, some direction] := args | throw .badType
    done (reorder (if env.truthy column then column else .null) direction)
  | .limit => do
    let [some count] := args | throw .badType
    done (limit count)
  | .offset => do
    let [some count] := args | throw .badType
    done (offset count)
  | .forPage => do
    let [some page, some size] := args | throw .badType
    done (forPage page (env.listed size))
  | .union all => do
    let [some other] := args | throw .badType
    done (union env inner all other)
  | .trashed mode => do
    let [] := args | throw .badType
    done (setTrashed mode (if mode = .only then "only_trashed" else "with_trashed"))
  | .with_ => do
    let [some relations, some callback] := args | throw .badType
    done do with_ (← givenPaths env inner relations) callback
  | .without => done (without (givenNames env args))
  | .withOnly => do
    let [some relations] := args | throw .badType
    done do withOnly (← givenPaths env inner relations)
  | .withWhereHas => do
    let [some relation, some callback] := args | throw .badType
    done (withWhereHas env inner relation callback)
  | .withCount => do
    let [some relations] := args | throw .badType
    done do withCount env inner (← opened env inner relations)
  | .whereHas j => do
    let [some relation, some callback, some operator, some count] := args | throw .badType
    done (whereHas env inner j relation callback operator count)
  | .has j => do
    let [some relation, some operator, some count] := args | throw .badType
    done (has env inner j relation operator count)
  | .doesntHave j => do
    let [some relation, some callback] := args | throw .badType
    done (doesntHave env inner j relation callback)
  | .whereRelation j => do
    let [some relation, some column, operator, value] := args | throw .badType
    done (whereHas env inner j relation (comparing column operator value) .null .null)
  | .whereBelongsTo => do
    let [some related, some relation] := args | throw .badType
    done (whereBelongsTo env related relation)
  | .whereHasMorph j => do
    let [some relation, some types, some callback] := args | throw .badType
    done (whereHasMorph env inner j relation types callback)
  | .whereMorphedTo => do
    let [some relation, some target] := args | throw .badType
    done (whereMorphedTo env relation target)
  | .ofMany => do
    let [some column, some aggregate] := args | throw .badType
    done (ofMany column aggregate)
  | .extremeOfMany extremum => do
    let [some column] := args | throw .badType
    done (ofMany column (.text extremum.word))
  | .setPivotSource => do
    let [some table, some label] := args | throw .badType
    done (setPivotSource table label)
  | .pivotAlias => do
    let [some label] := args | throw .badType
    done (setPivotAlias label)
  | .withPivot => done (withPivot (givenNames env args))
  | .when expected => do
    let [some condition, some callback, some default] := args | throw .badType
    done <|
      if env.truthy condition == expected then discard (refine inner callback)
      else refineIfGiven inner default
  | .tap => do
    let [some callback] := args | throw .badType
    done (discard (refine inner callback))
  | .scope => do
    let some name :: args := args | throw .badType
    scope env inner name args.reduceOption
  | .clone => do
    let [] := args | throw .badType
    return .other (← get)
  | .compile => do
    let [some whole] := args | throw .badType
    let select := (← get).select
    return .value (pair (← ofExcept (if env.truthy whole then select.compile else select.body)))
  | .statement => do
    let [some context] := args | throw .badType
    return .value (pair (← checkedStatement (env.shown context)))
  | .toSql => do
    let [] := args | throw .badType
    return .value (.text (← checkedStatement "to_sql").text)
  | .getBindings => do
    let [] := args | throw .badType
    return .value (.list (← checkedStatement "get_bindings").values)
  | .toRawSql => do
    let [] := args | throw .badType
    return .value (.text (Sql.Statement.inlined env.shown (← checkedStatement "to_raw_sql")))
  | .eagerLoader => return .value .null
  | .running _ => return .value .null

/-- Makes a call by name. -/
def call (c : Call) : Build Answer := do
  let args ← settleItems env inner c.args
  let named ← settleNamed env inner c.named
  match Method.ofName? c.method with
  | none => throw .noAttribute
  | some m => perform env inner m (← ofExcept (m.bind (.mk c.method args named)))

end Calls

/-- Makes a call whose inner calls nest at most `depth` deep. -/
def callUpTo (env : Env) : Nat → Caller
  | 0, _ => throw .tooDeep
  | depth + 1, c => call env (callUpTo env depth) c

/-- How deep calls may nest. -/
def callDepth : Nat := 400

end Build

namespace Env

/-- Makes a builder call. -/
def call (env : Env) (c : Call) : Build Answer := Build.callUpTo env Build.callDepth c

/-- Makes builder calls one after the other. -/
def chain (env : Env) (calls : List Call) : Build Answer := Build.chain env.call calls

/-- Calls a refinement with the query. -/
def refine (env : Env) (callback : Value) : Build Answer := Build.refine env.call callback

/-- What comes of a draft: a query, or a value that is none. -/
def draft (env : Env) (base : Value) (calls : List Call) : Except Error Answer :=
  match (Build.buildDraft env env.call base calls).run (.blank default .null) with
  | .ok answer _ => .ok answer
  | .error e _ => .error e

end Env

end Relata
