import Mathlib.Data.List.Forall2
import Relata.Proofs.Query.Enclosed

/-!
What the subqueries of a query refer to outside themselves. A subquery names the row around it once,
by the plain name of the table that the query reads, and a name means the nearest row that has a
table of that name. Main statement: the reference reaches the row around the subquery if and only if
none of the tables that the subquery reads itself has that name; otherwise the inner row is compared
with itself, and the row around it makes no difference. So it is where a model is related to itself,
or by way of its own table.
-/

namespace Relata

open Sql (Clause Condition Fragment Junction LinkTest RowView Subquery Test)

namespace Sql

/-- The names of the tables that a subquery reads. -/
def Subquery.names (s : Subquery) : List String := s.table :: s.joins.map Join.table

/-- The row that a column is of by the name of its table, counted from the innermost of the rows
around a place: the first one that has a table of that name. -/
def levelOf (rows : List (List String)) (name : String) : Option Nat :=
  rows.findIdx? (·.contains name)

theorem levelOf_outer {inner outer : List String} {name : String} (around : name ∈ outer) :
    levelOf [inner, outer] name = some (if name ∈ inner then 0 else 1) := by
  by_cases inside : name ∈ inner <;> simp [levelOf, List.findIdx?_cons, inside, around]

/-- The comparison of a column of an inner row with one that goes by the name of the table around it,
and tests of types on the inner row. -/
structure Correlation where
  table : String
  column : String
  outer : String
  outerColumn : String
  types : List Test

namespace Correlation

/-- The column of the inner row. -/
def key (c : Correlation) : String := s!"{c.table}.{c.column}"

/-- The column that is meant to be of the row around it. -/
def reference (c : Correlation) : String := s!"{c.outer}.{c.outerColumn}"

def tests (c : Correlation) : List LinkTest := .equal c.key c.reference :: c.types.map .own

theorem tests_ne_nil (c : Correlation) : c.tests ≠ [] := List.cons_ne_nil _ _

end Correlation

/-- A row of the tables of a subquery knows its own column of the correlation, and the column that is
meant to be of the row around it only if it has a table of that name. -/
structure Subquery.Sees (s : Subquery) (c : Correlation) (row : RowView) : Prop where
  key : (row.value c.key).isSome
  reference : (row.value c.reference).isSome ↔ c.outer ∈ s.names

/-- How a subquery with conditions of its own is bound to the row around it. -/
structure Subquery.Scoping (s : Subquery) (c : Correlation) (own : List Clause) : Prop where
  inside : c.table ∈ s.names
  /-- Nothing but the reference is looked up outside. -/
  conditions : s.conditions =
    c.tests.map (.leaf .and) ++ [.group .and false (Condition.mappedAll .own own)]
  level : ∀ around, c.outer ∈ around →
    levelOf [s.names, around] c.outer = some (if c.outer ∈ s.names then 0 else 1)
  /-- A reference that is not captured has the value that the row around gives it. -/
  free : c.outer ∉ s.names → ∀ row, s.Sees c row → ∀ outer a, outer c.reference = some a →
    Condition.reading (LinkTest.truth row outer) s.tokens =
      some ((row.value c.key).any (row.equal · a) && c.types.all row.truth &&
        Condition.allHold row.truth own)
  /-- One that is captured has that of the inner row, whatever is around it. -/
  captured : c.outer ∈ s.names → ∀ row, s.Sees c row → ∀ outer,
    Condition.reading (LinkTest.truth row outer) s.tokens =
      some ((row.value c.key).any (fun k => (row.value c.reference).any (row.equal k)) &&
        c.types.all row.truth && Condition.allHold row.truth own)

end Sql

namespace Build

theorem reading_of_correlation {related : Model} {joins : List Sql.Join} {c : Sql.Correlation}
    {own : List Clause} {row : RowView} {outer : String → Option Value} :
    Condition.reading (LinkTest.truth row outer) (subqueryOf related joins c.tests own).tokens =
      some ((LinkTest.equal c.key c.reference).truth row outer && c.types.all row.truth &&
        Condition.allHold row.truth own) := by
  have alone : LinkTest.truth row outer ∘ LinkTest.own = row.truth := rfl
  rw [reading_subqueryOf c.tests_ne_nil, alone, Sql.Correlation.tests, List.all_cons,
    List.all_map, alone]

theorem scoping_subqueryOf {related : Model} {joins : List Sql.Join} {c : Sql.Correlation}
    (inside : c.table ∈ related.table :: joins.map Sql.Join.table) (own : List Clause) :
    (subqueryOf related joins c.tests own).Scoping c own where
  inside := inside
  conditions := rfl
  level _ := Sql.levelOf_outer
  free apart row sees outer a given := by
    obtain ⟨k, known⟩ := Option.isSome_iff_exists.mp sees.key
    have unknown : row.value c.reference = none := by
      rw [← Option.not_isSome_iff_eq_none, sees.reference]
      exact apart
    rw [reading_of_correlation]
    simp [LinkTest.truth, known, unknown, given]
  captured within row sees outer := by
    obtain ⟨k, known⟩ := Option.isSome_iff_exists.mp sees.key
    obtain ⟨a, taken⟩ := Option.isSome_iff_exists.mp (sees.reference.mpr within)
    rw [reading_of_correlation]
    simp [LinkTest.truth, known, taken]

end Build

namespace Env

/-- The tables that a relation joins with that of the related model. -/
def joinedTables (env : Env) (d : Descriptor) : List String :=
  match d.kind with
  | .belongsToMany => [Descriptor.written d.table]
  | .hasOneThrough | .hasManyThrough => ((env.throughModel d).toOption.map Model.table).toList
  | _ => []

theorem tables_of_linkage {env : Env} {d : Descriptor} {m related : Model} {keys : List Value}
    {l : Linkage} (h : env.linkage d m related keys = .ok l) :
    l.joins.map Sql.Join.table = env.joinedTables d := by
  unfold Env.linkage at h
  unfold joinedTables
  dsimp only at h
  cases kind : d.kind with
  | hasOne | hasMany | belongsTo | belongsToMany =>
    rw [kind] at h
    cases h
    rfl
  | morphOne | morphMany | morphOneOfMany =>
    rw [kind] at h
    obtain ⟨_, -, h⟩ := ok_of_bind h
    cases h
    rfl
  | hasOneThrough | hasManyThrough =>
    rw [kind] at h
    obtain ⟨through, found, h⟩ := ok_of_bind h
    cases h
    simp [found, Except.toOption]
  | morphTo =>
    rw [kind] at h
    cases h

/-- The tests that link related rows to the row around them are one comparison with its key, and
tests of types. -/
theorem correlation_of_linkTests {env : Env} {d : Descriptor} {m related : Model} {parent : String}
    {tests : List LinkTest} (h : env.linkTests d m related parent = .ok tests) :
    ∃ c : Sql.Correlation, tests = c.tests ∧ c.outer = parent ∧
      c.outerColumn = Descriptor.written d.parentAttribute ∧
      c.table ∈ related.table :: env.joinedTables d := by
  unfold Env.linkTests at h
  unfold joinedTables Descriptor.parentAttribute
  dsimp only at h
  cases kind : d.kind with
  | hasOne | hasMany =>
    rw [kind] at h
    cases h
    exact ⟨⟨related.table, Descriptor.written d.foreignKey, parent, _, []⟩, rfl, rfl, rfl, by simp⟩
  | belongsTo =>
    rw [kind] at h
    cases h
    exact ⟨⟨related.table, Descriptor.written d.ownerKey, parent, _, []⟩, rfl, rfl, rfl, by simp⟩
  | morphOne | morphMany | morphOneOfMany =>
    rw [kind] at h
    obtain ⟨tags, -, h⟩ := ok_of_bind h
    cases h
    exact ⟨⟨related.table, Descriptor.written d.idColumn, parent, _,
      [.among false s!"{related.table}.{Descriptor.written d.typeColumn}" tags]⟩, rfl, rfl, rfl,
      by simp⟩
  | belongsToMany =>
    rw [kind] at h
    cases h
    exact ⟨⟨Descriptor.written d.table, Descriptor.written d.foreignPivotKey, parent, _, []⟩, rfl,
      rfl, rfl, by simp⟩
  | hasOneThrough | hasManyThrough =>
    rw [kind] at h
    obtain ⟨through, found, h⟩ := ok_of_bind h
    cases h
    exact ⟨⟨through.table, Descriptor.written d.firstKey, parent, _, []⟩, rfl, rfl, rfl,
      by simp [found, Except.toOption]⟩
  | morphTo =>
    rw [kind] at h
    cases h

end Env

namespace Env

/-- The tag that a type of targets is given by, itself or by a model. -/
def givenTag (env : Env) (type : Value) : Except Error Value :=
  match type with
  | .text tag => .ok (.text tag)
  | type => env.tagOf env.tags type

end Env

namespace Build

/-- The subquery for a relation refers to the row around it by the key of the relation and by the
name of the table that the query reads, and to nothing else. -/
theorem Linking.scoping {env : Env} {inner : Caller} {m : Model} {parent : String}
    {relation callback : Value} (l : Linking env inner m parent relation callback) :
    l.subquery.names = l.related.table :: env.joinedTables l.d ∧
      ∃ c : Sql.Correlation, c.outer = parent ∧
        c.outerColumn = Descriptor.written l.d.parentAttribute ∧
        l.subquery.Scoping c (l.sub.select.whereList l.related.table) := by
  have tables := Env.tables_of_linkage l.joined
  obtain ⟨c, tests, outer, named, inside⟩ := Env.correlation_of_linkTests l.linked
  refine ⟨by rw [← tables]; rfl, c, outer, named, ?_⟩
  rw [subquery, tests]
  exact scoping_subqueryOf (by rwa [tables]) _

variable {env : Env} {inner : Caller} {d : Descriptor} {parent : String} {callback : Value}

/-- What the condition on a target of one type is made of. -/
structure TargetLinking (env : Env) (inner : Caller) (d : Descriptor) (parent : String)
    (callback type : Value) where
  tag : Value
  found : Value
  related : Model
  base : Query
  sub : Query
  named : env.givenTag type = .ok tag
  resolved : env.tags.modelFor env.catalog tag = .ok found
  target : env.asModel found = .ok related
  new : related.query = .ok base
  refined : refineIfGiven inner callback base = .ok () sub

namespace TargetLinking

variable {type : Value}

/-- The comparison of the identifier of a target with the one that the row around has. -/
def correlation (l : TargetLinking env inner d parent callback type) : Sql.Correlation :=
  ⟨l.related.table, "id", parent, Descriptor.written d.idColumn, []⟩

def subquery (l : TargetLinking env inner d parent callback type) : Subquery :=
  subqueryOf l.related [] l.correlation.tests (l.sub.select.whereList l.related.table)

/-- The condition that is written; the type is tested outside the subquery. -/
def condition (l : TargetLinking env inner d parent callback type) : Fragment :=
  ⟨s!"({parent}.{Descriptor.written d.typeColumn} = ? AND EXISTS (", [l.tag]⟩ ++
    l.subquery.fragment ++ .plain "))"

theorem condition_eq (l : TargetLinking env inner d parent callback type) :
    l.condition = ⟨s!"({parent}.{Descriptor.written d.typeColumn} = ? AND EXISTS (", [l.tag]⟩ ++
      (.plain s!"SELECT 1 FROM {l.related.table} WHERE {l.related.table}.id = {
        parent}.{Descriptor.written d.idColumn}" ++ furtherConditions l.sub l.related.table) ++
      .plain "))" := by
  have select (s : String) : "SELECT 1" ++ (" FROM " ++ s) = "SELECT 1 FROM " ++ s := by
    rw [← String.append_assoc]
    rfl
  have start : Fragment.plain "SELECT 1" ++ (.plain s!" FROM {
      (⟨l.related.table, [], []⟩ : Subquery).source} WHERE " ++
      separated " AND " (l.correlation.tests.map LinkTest.fragment)) =
      .plain s!"SELECT 1 FROM {l.related.table} WHERE {l.related.table}.id = {
        parent}.{Descriptor.written d.idColumn}" := by
    simp [Subquery.source, separated, Sql.Correlation.tests, Sql.Correlation.key,
      Sql.Correlation.reference, correlation, LinkTest.fragment, Fragment.plain, Fragment.mk_append,
      String.append_assoc, select]
  rw [condition, Subquery.fragment_eq_rows, subquery, rows_subqueryOf l.correlation.tests_ne_nil,
    ← Fragment.append_assoc (.plain "SELECT 1"), start]

end TargetLinking

variable {m : Model} {type : Value} {q after : Query} {f : Fragment}

theorem targetOfType_eq_ok_iff :
    targetOfType env inner d parent callback type q = .ok f after ↔
      q = after ∧ ∃ l : TargetLinking env inner d parent callback type, f = l.condition := by
  have tagged : targetOfType env inner d parent callback type = (do
      let tag ← ofExcept (env.givenTag type)
      let found ← ofExcept (env.tags.modelFor env.catalog tag)
      targetWithTag env inner d parent callback found tag) := by
    cases type <;> rfl
  rw [tagged]
  constructor
  · intro run
    obtain ⟨tag, _, first, run⟩ := ok_of_bind run
    obtain ⟨named, rfl⟩ := ok_of_ofExcept first
    obtain ⟨found, _, first, run⟩ := ok_of_bind run
    obtain ⟨resolved, rfl⟩ := ok_of_ofExcept first
    unfold targetWithTag at run
    split at run
    · cases run
    obtain ⟨related, _, first, run⟩ := ok_of_bind run
    obtain ⟨target, rfl⟩ := ok_of_ofExcept first
    obtain ⟨base, _, first, run⟩ := ok_of_bind run
    obtain ⟨new, rfl⟩ := ok_of_ofExcept first
    obtain ⟨⟨u, sub⟩, _, refining, run⟩ := ok_of_bind run
    obtain ⟨refined, rfl⟩ := ok_of_on refining
    cases run
    let l : TargetLinking env inner d parent callback type :=
      ⟨tag, found, related, base, sub, named, resolved, target, new, refined⟩
    exact ⟨rfl, l, l.condition_eq.symm⟩
  · rintro ⟨rfl, l, rfl⟩
    have given : l.found.isNull = false := by
      have target := l.target
      cases h : l.found <;> first | rfl | (rw [h] at target; cases target)
    have refining : on l.base (refineIfGiven inner callback) q = .ok ((), l.sub) q := by
      unfold on EStateM.run
      rw [l.refined]
    refine bind_eq_ok (ofExcept_eq_ok l.named q) (bind_eq_ok (ofExcept_eq_ok l.resolved q) ?_)
    unfold targetWithTag
    rw [given]
    refine bind_eq_ok (ofExcept_eq_ok l.target q) (bind_eq_ok (ofExcept_eq_ok l.new q) ?_)
    refine bind_eq_ok refining ?_
    rw [l.condition_eq]
    rfl

/-- Conditions on targets of the types, one for each. -/
theorem targets_eq_ok_iff {types : List Value} {fs : List Fragment} :
    types.mapM (targetOfType env inner d parent callback) q = .ok fs after ↔
      q = after ∧ List.Forall₂ (fun type f =>
        ∃ l : TargetLinking env inner d parent callback type, f = l.condition) types fs := by
  induction types generalizing q after fs with
  | nil =>
    simp only [List.mapM_nil, pure_eq_ok_iff, List.forall₂_nil_left_iff]
    exact ⟨fun ⟨none_, same⟩ => ⟨same, none_.symm⟩, fun ⟨same, none_⟩ => ⟨none_.symm, same⟩⟩
  | cons type rest ih =>
    simp only [List.mapM_cons, bind_eq_ok_iff, targetOfType_eq_ok_iff, pure_eq_ok_iff, ih,
      List.forall₂_cons_left_iff]
    constructor
    · rintro ⟨f, _, ⟨rfl, one⟩, more, _, ⟨rfl, later⟩, rfl, rfl⟩
      exact ⟨rfl, f, more, one, later, rfl⟩
    · rintro ⟨rfl, f, more, one, later, rfl⟩
      exact ⟨f, q, ⟨rfl, one⟩, more, q, ⟨rfl, later⟩, rfl, rfl⟩

/-- The condition that the target is of one of the types. -/
def targetsCondition (parts : List Fragment) : Fragment :=
  if parts.isEmpty then .plain "0=1" else separated " OR " parts

theorem requireMorphTo_eq_ok_iff (known : env.catalog.model? q.select.source.model = some m)
    {relation : Value} :
    requireMorphTo env relation q = .ok d after ↔
      q = after ∧ env.require m relation = .ok d ∧ d.kind = .morphTo := by
  constructor
  · intro run
    obtain ⟨d', _, first, run⟩ := ok_of_bind run
    obtain ⟨m', _, asked, found⟩ := ok_of_bind first
    rw [model_eq_ok known] at asked
    cases asked
    obtain ⟨declared, rfl⟩ := ok_of_ofExcept found
    cases kind : d'.kind with
    | morphTo =>
      rw [kind] at run
      cases run
      exact ⟨rfl, declared, kind⟩
    | _ =>
      rw [kind] at run
      cases run
  · rintro ⟨rfl, declared, kind⟩
    have required : require env relation q = .ok d q :=
      bind_eq_ok (model_eq_ok known) (ofExcept_eq_ok declared q)
    refine bind_eq_ok required ?_
    rw [kind]
    rfl

theorem whereHasMorph_eq_ok_iff (known : env.catalog.model? q.select.source.model = some m)
    {junction : Junction} {relation types : Value} :
    whereHasMorph env inner junction relation types callback q = .ok () after ↔
      ∃ d parts, env.require m relation = .ok d ∧ d.kind = .morphTo ∧
        List.Forall₂ (fun type f => ∃ l : TargetLinking env inner d q.select.from_ callback type,
          f = l.condition) ((env.members? types).getD [types]) parts ∧
        Gains q junction (targetsCondition parts) "where_has_morph" after := by
  constructor
  · intro run
    obtain ⟨d, _, first, run⟩ := ok_of_bind run
    obtain ⟨rfl, declared, kind⟩ := (requireMorphTo_eq_ok_iff known).mp first
    obtain ⟨q', _, reading, run⟩ := ok_of_bind run
    cases reading
    obtain ⟨parts, _, made, run⟩ := ok_of_bind run
    obtain ⟨rfl, each⟩ := targets_eq_ok_iff.mp made
    exact ⟨d, parts, declared, kind, each, addFragment_eq_ok_iff.mp run⟩
  · rintro ⟨d, parts, declared, kind, each, gains⟩
    refine bind_eq_ok ((requireMorphTo_eq_ok_iff known).mpr ⟨rfl, declared, kind⟩) ?_
    refine bind_eq_ok (a := q) rfl (bind_eq_ok (targets_eq_ok_iff.mpr ⟨rfl, each⟩) ?_)
    exact addFragment_eq_ok_iff.mpr gains

/-- For any query and any relation whose target is fixed, the subquery names the row around it once,
by the key of the relation and the name of the table that the query reads, and so does the one for
each type of a relation whose target depends on each row, whose type is tested outside of it. The
name reaches the row around unless it is that of the related table or of one joined with it; if it
is, the subquery asks the same of every row of the query. -/
theorem outer_row_is_captured_iff (known : env.catalog.model? q.select.source.model = some m) :
    (∀ relation callback f after, relatedRows env inner relation callback q = .ok f after ↔
      q = after ∧ ∃ l : Linking env inner m q.select.from_ relation callback,
        f = l.subquery.rows) ∧
    (∀ relation callback (l : Linking env inner m q.select.from_ relation callback),
      l.subquery.names = l.related.table :: env.joinedTables l.d ∧
      ∃ c : Sql.Correlation, c.outer = q.select.from_ ∧
        c.outerColumn = Descriptor.written l.d.parentAttribute ∧
        l.subquery.Scoping c (l.sub.select.whereList l.related.table)) ∧
    (∀ junction relation types callback after,
      whereHasMorph env inner junction relation types callback q = .ok () after ↔
        ∃ d parts, env.require m relation = .ok d ∧ d.kind = .morphTo ∧
          List.Forall₂ (fun type f =>
            ∃ l : TargetLinking env inner d q.select.from_ callback type, f = l.condition)
            ((env.members? types).getD [types]) parts ∧
          Gains q junction (targetsCondition parts) "where_has_morph" after) ∧
    ∀ d callback type (l : TargetLinking env inner d q.select.from_ callback type),
      l.condition = ⟨s!"({q.select.from_}.{Descriptor.written d.typeColumn} = ? AND EXISTS (",
        [l.tag]⟩ ++ l.subquery.fragment ++ .plain "))" ∧
      l.subquery.names = [l.related.table] ∧
      l.subquery.Scoping ⟨l.related.table, "id", q.select.from_, Descriptor.written d.idColumn, []⟩
        (l.sub.select.whereList l.related.table) :=
  ⟨fun _ _ _ _ => relatedRows_eq_ok_iff known, fun _ _ l => l.scoping,
    fun _ _ _ _ _ => whereHasMorph_eq_ok_iff known,
    fun _ _ _ l => ⟨rfl, rfl, scoping_subqueryOf (by simp [TargetLinking.correlation]) _⟩⟩

/-- Users, each with those they lead. -/
def user : Model :=
  { plainPost with
    name := "User"
    key := "User"
    namedTable := .text "users"
    declared := [("reports", 0, ⟨.direct [("kind", .text "has_many"), ("model", .model 0),
      ("foreign_key", .text "boss_id"), ("local_key", .text "id")], [], none, []⟩)] }

def staffEnv : Env := { plainEnv with catalog := ⟨#[user]⟩ }

def allUsers : Query := .blank user.source .null

/-- What the existence of those that a user leads is asked by. -/
def reports : Linking staffEnv (callUpTo staffEnv 1) user "users" (.text "reports") .null where
  d :=
    { (default : Descriptor) with
      kind := .hasMany
      target := .model 0
      foreignKey := some "boss_id"
      localKey := some "id"
      pivotAlias := "pivot" }
  related := user
  base := allUsers
  sub := allUsers
  linkage := ⟨[("boss_id", [])], []⟩
  tests := [.equal "users.boss_id" "users.id"]
  declared := rfl
  target := rfl
  new := rfl
  refined := rfl
  joined := rfl
  linked := rfl

/-- Whether a user leads anyone is asked of the user that is led: whether they lead themselves. -/
theorem reports_are_captured :
    staffEnv.catalog.model? allUsers.select.source.model = some user ∧
    relatedRows staffEnv (callUpTo staffEnv 1) (.text "reports") .null allUsers =
      .ok (.plain " FROM users WHERE users.boss_id = users.id") allUsers ∧
    ∃ c : Sql.Correlation, c.outer = "users" ∧ c.outerColumn = "id" ∧
      Sql.levelOf [reports.subquery.names, ["users"]] "users" = some 0 ∧
      ∀ row, reports.subquery.Sees c row → ∀ outer other,
        Condition.reading (LinkTest.truth row outer) reports.subquery.tokens =
          Condition.reading (LinkTest.truth row other) reports.subquery.tokens := by
  have known : staffEnv.catalog.model? allUsers.select.source.model = some user := rfl
  obtain ⟨written, binding, -, -⟩ := outer_row_is_captured_iff known
  obtain ⟨-, c, outer, named, scoping⟩ := binding _ _ reports
  have within : c.outer ∈ reports.subquery.names := by
    rw [show c.outer = "users" from outer]
    decide
  refine ⟨known, (written _ _ _ _).mpr ⟨rfl, reports, rfl⟩, c, outer, named, by decide, ?_⟩
  intro row sees around other
  have captured := scoping.captured within row sees
  exact (captured around).trans (captured other).symm

end Build

end Relata
