import Relata.Proofs.Query.Existence
import Relata.Proofs.Query.Sourced
import Relata.Proofs.Sql.Placeholders

/-!
The subqueries by which a query asks for related rows and for their number. Each is written from the
tests that link a related row to the row around it and, in parentheses behind them, from whatever
conditions the calls recorded on the relation and the refinement leave. Main statement: all ways of
asking put the same subquery into the query; a row passes it if it passes the linking tests, the
conditions and the deletion scope, whatever mixture of AND, OR and groups the conditions are; and
its values are those of the linking tests and then those of the conditions.
-/

namespace Relata

open Sql (Clause Condition Fragment Junction LinkTest Subquery Test Token)

namespace Sql

namespace Condition

variable {α β : Type} (f : α → β)

mutual

theorem leaves_mapped : ∀ c : Condition α, (c.mapped f).leaves = c.leaves.map f
  | .leaf _ _ => rfl
  | .group _ _ children => leavesOf_mappedAll children

theorem leavesOf_mappedAll : ∀ cs : List (Condition α),
    leavesOf (mappedAll f cs) = (leavesOf cs).map f
  | [] => rfl
  | c :: rest => by simp only [mappedAll, leavesOf, leaves_mapped c, leavesOf_mappedAll rest,
      List.map_append]

end

theorem leavesOf_leaves (ts : List α) : leavesOf (ts.map (.leaf .and)) = ts := by
  induction ts with
  | nil => rfl
  | cons t rest ih => simp [leavesOf, leaves, ih]

end Condition

/-- What is written around the tests of a subquery holds no placeholder. -/
theorem carries_linkTokens : ∀ ts : List (Token LinkTest),
    (Fragment.concat (ts.map Token.linkFragment)).Carries
      ((ts.filterMap Token.leaf?).map LinkTest.fragment)
  | [] => .plain rfl
  | .leaf t :: rest => (Fragment.Carries.single t.fragment).append (carries_linkTokens rest)
  | .junction j :: rest =>
    (Fragment.Carries.plain (by cases j <;> decide)).append (carries_linkTokens rest)
  | .opening negated :: rest =>
    (Fragment.Carries.plain (by cases negated <;> decide)).append (carries_linkTokens rest)
  | .closing :: rest => (Fragment.Carries.plain (by decide)).append (carries_linkTokens rest)

/-- The pieces of SQL that a subquery is written from: the tables that are read, and the tests. -/
def Subquery.pieces (s : Subquery) : List Fragment :=
  .plain s.source :: (Condition.leavesOf s.conditions).map LinkTest.fragment

theorem Subquery.carries_rows (s : Subquery) : s.rows.Carries s.pieces := by
  have tests := carries_linkTokens s.tokens
  rw [Subquery.tokens, Condition.leaf?_row] at tests
  have heading : Fragment.plain s!" FROM {s.source} WHERE " =
      .plain " FROM " ++ .plain s.source ++ .plain " WHERE " := by
    simp [Fragment.plain, Fragment.mk_append]
  rw [rows, heading]
  have from_ := (Fragment.Carries.plain (s := " FROM ") (by decide)).append
    (.single (.plain s.source))
  exact (from_.append (.plain (s := " WHERE ") (by decide))).append tests

/-- If each piece has as many placeholders as values, the placeholder of each value stands in the
piece that brings it. -/
theorem Subquery.aligned (s : Subquery) (balanced : ∀ f ∈ s.pieces, f.Balanced) :
    Fragment.placeholders s.rows.text = s.rows.values.length ∧
      ∀ i < s.rows.values.length, Aligned s.pieces s.rows.text i := by
  obtain ⟨woven, values⟩ := s.carries_rows
  rw [values]
  exact ⟨woven.placeholders_before balanced, fun i hi => woven.aligned balanced hi⟩

end Sql

/-- The test that tells the rows of a model that a query reads from those that it does not. -/
def Model.deletionTests (m : Model) (mode : Sql.Trashed) : List Test :=
  if !m.softDeletes then []
  else match mode with
    | .hidden => [.null false (m.table ++ ".deleted_at")]
    | .only => [.null true (m.table ++ ".deleted_at")]
    | .included => []

theorem Model.deletionScope_eq {m : Model} {q : Sql.Select} (source : q.source = m.source) :
    q.deletionScope m.table = (m.deletionTests q.trashed).map (.leaf .and) := by
  unfold Sql.Select.deletionScope Model.deletionTests
  rw [source, Model.source]
  cases m.softDeletes with
  | false => rfl
  | true => cases q.trashed <;> rfl

/-- A deletion test has no values. -/
theorem Model.values_of_deletionTests {m : Model} {mode : Sql.Trashed} :
    ∀ t ∈ m.deletionTests mode, t.fragment.values = [] := by
  unfold Model.deletionTests
  split
  · simp
  · cases mode <;> simp [Test.fragment]

/-- The types by which rows are linked to the rows of a class: the tags of the class, if the
relation goes by them. -/
def Env.linkTypes (env : Env) (d : Descriptor) (m : Model) : List Value :=
  match d.kind with
  | .morphOne | .morphMany | .morphOneOfMany => (env.tags.possibleTags m).toOption.getD []
  | _ => []

/-- The linking tests bring no values but the types. -/
theorem Env.values_of_linkTests {env : Env} {d : Descriptor} {m related : Model} {parent : String}
    {tests : List LinkTest} (h : env.linkTests d m related parent = .ok tests) :
    tests.flatMap (·.fragment.values) = env.linkTypes d m := by
  unfold Env.linkTests at h
  unfold Env.linkTypes
  dsimp only at h
  cases kind : d.kind with
  | hasOne | hasMany | belongsTo | belongsToMany =>
    rw [kind] at h
    cases h
    simp [LinkTest.fragment]
  | morphOne | morphMany | morphOneOfMany =>
    rw [kind] at h
    obtain ⟨tags, possible, h⟩ := ok_of_bind h
    cases h
    have some_ := Build.possibleTags_ne_nil possible
    simp [LinkTest.fragment, Test.fragment, some_, possible, Except.toOption]
  | hasOneThrough | hasManyThrough =>
    rw [kind] at h
    obtain ⟨through, -, h⟩ := ok_of_bind h
    cases h
    simp [LinkTest.fragment]
  | morphTo =>
    rw [kind] at h
    cases h

namespace Build

/-- What a subquery for a relation is made of, in a query that reads the table `parent`: the related
model, the query that the recorded calls and the refinement leave of a new one, and what links the
related rows to the row around them. There is nothing of the kind for a relation whose target depends
on each row. -/
structure Linking (env : Env) (inner : Caller) (m : Model) (parent : String)
    (relation callback : Value) where
  d : Descriptor
  related : Model
  base : Query
  sub : Query
  linkage : Linkage
  tests : List LinkTest
  declared : env.require m relation = .ok d
  target : env.relatedModel d = .ok related
  new : related.query = .ok base
  refined : (do
    discard (chain inner d.constraints)
    refineIfGiven inner callback : Build Unit) base = .ok () sub
  /-- The joins do not depend on keys. -/
  joined : env.linkage d m related [] = .ok linkage
  linked : env.linkTests d m related parent = .ok tests

namespace Linking

variable {env : Env} {inner : Caller} {m : Model} {parent : String} {relation callback : Value}

/-- The subquery that is written. -/
def subquery (l : Linking env inner m parent relation callback) : Subquery :=
  subqueryOf l.related l.linkage.joins l.tests (l.sub.select.whereList l.related.table)

def existence (l : Linking env inner m parent relation callback) : Fragment :=
  .plain "SELECT 1" ++ l.subquery.rows

def number (l : Linking env inner m parent relation callback) : Fragment :=
  .plain "SELECT COUNT(*)" ++ l.subquery.rows

/-- The condition by which rows with related rows are kept: any at all, or as many as a comparison
of their number asks. -/
def filter (l : Linking env inner m parent relation callback) (operator count : Value) : Fragment :=
  if operator.isNull || count.isNull then .plain "EXISTS (" ++ l.existence ++ .plain ")"
  else .plain "(" ++ l.number ++ ⟨s!") {env.shown operator} ?", [count]⟩

/-- The column that has the number of related rows. -/
def column (l : Linking env inner m parent relation callback) : Fragment :=
  let name := String.ofList (relation.shown.toList.map fun c => if c = '.' then '_' else c)
  ⟨s!"({l.number.text}) AS {name}_count", l.number.values⟩

/-- A row passes the subquery if it passes the linking tests, the conditions that the recorded calls
and the refinement make from none, and the deletion scope of the related model in the mode they
leave; the values are the types of the link and those of the conditions, and each has the
placeholder of the same number if that is so piece by piece. -/
structure Faithful (l : Linking env inner m parent relation callback) : Prop where
  blank : l.base.select.conditions = []
  reading : ∀ v : LinkTest → Bool, Condition.reading v l.subquery.tokens =
    some (l.tests.all v && Condition.allHold (v ∘ .own) l.sub.select.conditions &&
      (l.related.deletionTests l.sub.select.trashed).all (v ∘ .own))
  values : l.subquery.rows.values = env.linkTypes l.d m ++
    (Condition.leavesOf l.sub.select.conditions).flatMap (·.fragment.values)
  pieces : l.subquery.pieces = .plain l.subquery.source :: (l.tests.map LinkTest.fragment ++
    (Condition.leavesOf l.sub.select.conditions).map Test.fragment ++
    (l.related.deletionTests l.sub.select.trashed).map Test.fragment)
  aligned : (∀ f ∈ l.subquery.pieces, f.Balanced) →
    Fragment.placeholders l.subquery.rows.text = l.subquery.rows.values.length ∧
      ∀ i < l.subquery.rows.values.length, Sql.Aligned l.subquery.pieces l.subquery.rows.text i

theorem pieces_eq (l : Linking env inner m parent relation callback)
    (source : l.sub.select.source = l.related.source) :
    l.subquery.pieces = .plain l.subquery.source :: (l.tests.map LinkTest.fragment ++
      (Condition.leavesOf l.sub.select.conditions).map Test.fragment ++
      (l.related.deletionTests l.sub.select.trashed).map Test.fragment) := by
  have own (ts : List Test) : ts.map (LinkTest.fragment ∘ .own) = ts.map Test.fragment := rfl
  simp only [Subquery.pieces, subquery, subqueryOf, Condition.leavesOf_append,
    Condition.leavesOf_leaves, Condition.leavesOf, Condition.leaves, Condition.leavesOf_mappedAll,
    Sql.Select.leavesOf_whereList, l.related.deletionScope_eq source, List.map_append, List.map_map,
    List.append_nil, own, List.append_assoc]

theorem faithful {depth : Nat} (l : Linking env (callUpTo env depth) m parent relation callback) :
    l.Faithful := by
  have some_ : l.tests ≠ [] := linkTests_ne_nil l.linked
  have fresh := Model.extended_of_query l.new
  have source : l.sub.select.source = l.related.source := by
    have inside : ∀ c, Keeps (Query.Reads l.related.source) (callUpTo env depth c)
        (Answer.Reads l.related.source) := keepsSource_callUpTo depth
    have keeps := (Query.Lasting.keeps_chain inside l.d.constraints).discard.seq
      (Query.Lasting.keeps_refineIfGiven inside callback)
    exact (keeps l.base (congrArg Sql.Select.source fresh.frame) _ _ l.refined).1
  have pieces := l.pieces_eq source
  refine ⟨fresh.conditions, fun v => ?_, ?_, pieces, l.subquery.aligned⟩
  · rw [subquery, reading_subqueryOf some_, Sql.Select.allHold_whereList_eq,
      l.related.deletionScope_eq source, Condition.allHold_leaves, Bool.and_assoc]
  · have scope : (l.related.deletionTests l.sub.select.trashed).flatMap (·.fragment.values) = [] :=
      List.flatMap_eq_nil_iff.mpr Model.values_of_deletionTests
    rw [l.subquery.carries_rows.values, pieces]
    simp only [List.flatMap_cons, List.flatMap_append, List.flatMap_map, Fragment.values_plain,
      List.nil_append, scope, List.append_nil, Env.values_of_linkTests l.linked]

end Linking

variable {env : Env} {inner : Caller} {m : Model} {relation callback : Value} {q after : Query}

theorem relatedRows_eq_ok_iff (known : env.catalog.model? q.select.source.model = some m)
    {f : Fragment} :
    relatedRows env inner relation callback q = .ok f after ↔
      q = after ∧ ∃ l : Linking env inner m q.select.from_ relation callback,
        f = l.subquery.rows := by
  have required (d : Descriptor) (h : env.require m relation = .ok d) :
      require env relation q = .ok d q :=
    bind_eq_ok (model_eq_ok known) (ofExcept_eq_ok h q)
  constructor
  · intro run
    obtain ⟨d, _, first, run⟩ := ok_of_bind run
    obtain ⟨m', _, asked, found⟩ := ok_of_bind first
    rw [model_eq_ok known] at asked
    cases asked
    obtain ⟨declared, rfl⟩ := ok_of_ofExcept found
    dsimp only at run
    split at run
    · cases run
    obtain ⟨q', _, reading, run⟩ := ok_of_bind run
    cases reading
    obtain ⟨related, _, first, run⟩ := ok_of_bind run
    obtain ⟨target, rfl⟩ := ok_of_ofExcept first
    obtain ⟨base, _, first, run⟩ := ok_of_bind run
    obtain ⟨new, rfl⟩ := ok_of_ofExcept first
    obtain ⟨⟨u, sub⟩, _, refining, run⟩ := ok_of_bind run
    obtain ⟨refined, rfl⟩ := ok_of_on refining
    obtain ⟨link, _, linking, run⟩ := ok_of_bind run
    cases run
    rw [link_run [] known] at linking
    obtain ⟨written, rfl⟩ := ok_of_ofExcept linking
    obtain ⟨linkage, joined, written⟩ := Relata.ok_of_bind written
    obtain ⟨tests, linked, written⟩ := Relata.ok_of_bind written
    cases written
    refine ⟨rfl, ⟨d, related, base, sub, linkage, tests, declared, target, new, refined, joined,
      linked⟩, ?_⟩
    exact (rows_subqueryOf (linkTests_ne_nil linked) sub).symm
  · rintro ⟨rfl, l, rfl⟩
    have fixed : (l.d.kind == .morphTo) = false := by
      have linked := l.linked
      cases kind : l.d.kind with
      | morphTo =>
        rw [Env.linkTests, kind] at linked
        cases linked
      | _ => rfl
    have linking : link env l.d l.related q.select.from_ q = .ok
        ⟨(⟨l.related.table, l.linkage.joins, []⟩ : Subquery).source,
          l.tests.map LinkTest.fragment⟩ q := by
      rw [link_run [] known, l.joined]
      refine ofExcept_eq_ok ?_ q
      change (do let tests ← env.linkTests l.d m l.related q.select.from_; _) = _
      rw [l.linked]
      rfl
    have refining : on l.base (do
        discard (chain inner l.d.constraints)
        refineIfGiven inner callback) q = .ok ((), l.sub) q := by
      unfold on EStateM.run
      rw [l.refined]
    refine bind_eq_ok (required l.d l.declared) ?_
    dsimp only
    rw [fixed]
    refine bind_eq_ok (a := q) rfl (bind_eq_ok (ofExcept_eq_ok l.target q) ?_)
    refine bind_eq_ok (ofExcept_eq_ok l.new q) (bind_eq_ok refining (bind_eq_ok linking ?_))
    rw [Linking.subquery, rows_subqueryOf (linkTests_ne_nil l.linked)]
    rfl

theorem bind_eq_ok_iff {α β : Type} {x : Build α} {f : α → Build β} {b : β} :
    (x >>= f) q = .ok b after ↔ ∃ a between, x q = .ok a between ∧ f a between = .ok b after :=
  ⟨ok_of_bind, fun ⟨_, _, first, second⟩ => bind_eq_ok first second⟩

theorem pure_eq_ok_iff {α : Type} {a b : α} :
    (pure a : Build α) q = .ok b after ↔ a = b ∧ q = after := by
  constructor
  · intro h
    cases h
    exact ⟨rfl, rfl⟩
  · rintro ⟨rfl, rfl⟩
    rfl

theorem existsQuery_eq_ok_iff (known : env.catalog.model? q.select.source.model = some m)
    {f : Fragment} :
    existsQuery env inner relation callback q = .ok f after ↔
      q = after ∧ ∃ l : Linking env inner m q.select.from_ relation callback, f = l.existence := by
  simp only [existsQuery, bind_eq_ok_iff, relatedRows_eq_ok_iff known, pure_eq_ok_iff]
  constructor
  · rintro ⟨_, _, ⟨rfl, l, rfl⟩, rfl, rfl⟩
    exact ⟨rfl, l, rfl⟩
  · rintro ⟨rfl, l, rfl⟩
    exact ⟨_, q, ⟨rfl, l, rfl⟩, rfl, rfl⟩

theorem countQuery_eq_ok_iff (known : env.catalog.model? q.select.source.model = some m)
    {f : Fragment} :
    countQuery env inner relation callback q = .ok f after ↔
      q = after ∧ ∃ l : Linking env inner m q.select.from_ relation callback, f = l.number := by
  simp only [countQuery, bind_eq_ok_iff, relatedRows_eq_ok_iff known, pure_eq_ok_iff]
  constructor
  · rintro ⟨_, _, ⟨rfl, l, rfl⟩, rfl, rfl⟩
    exact ⟨rfl, l, rfl⟩
  · rintro ⟨rfl, l, rfl⟩
    exact ⟨_, q, ⟨rfl, l, rfl⟩, rfl, rfl⟩

/-- A piece of SQL has passed the guard and is the last condition. -/
structure Gains (q : Query) (junction : Junction) (f : Fragment) (context : String)
    (after : Query) : Prop where
  passed : Guard.checkPiece f.text context = .ok ()
  gained : after = { q with select := { q.select with
    conditions := q.select.conditions ++ [.leaf junction (.raw f.text f.values context)] } }

theorem addFragment_eq_ok_iff {junction : Junction} {f : Fragment} {context : String} :
    addFragment junction f context q = .ok () after ↔ Gains q junction f context after := by
  unfold addFragment Sql.Clause.raw
  constructor
  · intro run
    obtain ⟨c, _, made, run⟩ := ok_of_bind run
    obtain ⟨written, rfl⟩ := ok_of_ofExcept made
    obtain ⟨⟨⟩, passed, written⟩ := Relata.ok_of_bind written
    cases written
    cases run
    exact ⟨passed, rfl⟩
  · rintro ⟨passed, rfl⟩
    refine bind_eq_ok (ofExcept_eq_ok ?_ q) rfl
    change (do Guard.checkPiece f.text context; _) = _
    rw [passed]
    rfl

/-- A column with the values of its placeholders has passed the guard and is the last one. -/
structure Selects (q : Query) (f : Fragment) (after : Query) : Prop where
  passed : Guard.checkPiece f.text "select_raw" = .ok ()
  selected : after = { q with select := { q.select with
    columns := q.select.columns ++ [.text f.text]
    bindings := q.select.bindings ++ f.values } }

theorem selectRaw_eq_ok_iff {f : Fragment} :
    selectRaw (.text f.text) (.list f.values) q = .ok () after ↔ Selects q f after := by
  have bound : bindingsOf (.list f.values) = pure f.values := by
    cases h : f.values <;> rfl
  unfold selectRaw
  rw [bound]
  constructor
  · intro run
    obtain ⟨⟨⟩, _, checked, run⟩ := ok_of_bind run
    obtain ⟨passed, rfl⟩ := ok_of_ofExcept checked
    cases run
    exact ⟨passed, rfl⟩
  · rintro ⟨passed, rfl⟩
    exact bind_eq_ok (ofExcept_eq_ok passed q) rfl

theorem whereHas_eq_ok_iff (known : env.catalog.model? q.select.source.model = some m)
    {junction : Junction} {operator count : Value} :
    whereHas env inner junction relation callback operator count q = .ok () after ↔
      ∃ l : Linking env inner m q.select.from_ relation callback,
        Gains q junction (l.filter operator count) "where_has" after := by
  unfold whereHas Linking.filter
  dsimp only
  split
  · simp only [bind_eq_ok_iff, existsQuery_eq_ok_iff known, pure_eq_ok_iff, addFragment_eq_ok_iff]
    constructor
    · rintro ⟨_, _, ⟨rfl, l, rfl⟩, _, _, ⟨rfl, rfl⟩, gains⟩
      exact ⟨l, gains⟩
    · rintro ⟨l, gains⟩
      exact ⟨_, q, ⟨rfl, l, rfl⟩, _, q, ⟨rfl, rfl⟩, gains⟩
  · simp only [bind_eq_ok_iff, countQuery_eq_ok_iff known, pure_eq_ok_iff, addFragment_eq_ok_iff]
    constructor
    · rintro ⟨_, _, ⟨rfl, l, rfl⟩, _, _, ⟨rfl, rfl⟩, gains⟩
      exact ⟨l, gains⟩
    · rintro ⟨l, gains⟩
      exact ⟨_, q, ⟨rfl, l, rfl⟩, _, q, ⟨rfl, rfl⟩, gains⟩

theorem doesntHave_eq_ok_iff (known : env.catalog.model? q.select.source.model = some m)
    {junction : Junction} :
    doesntHave env inner junction relation callback q = .ok () after ↔
      ∃ l : Linking env inner m q.select.from_ relation callback,
        Gains q junction (.plain "NOT EXISTS (" ++ l.existence ++ .plain ")") "doesnt_have"
          after := by
  simp only [doesntHave, bind_eq_ok_iff, existsQuery_eq_ok_iff known, addFragment_eq_ok_iff]
  constructor
  · rintro ⟨_, _, ⟨rfl, l, rfl⟩, gains⟩
    exact ⟨l, gains⟩
  · rintro ⟨l, gains⟩
    exact ⟨_, q, ⟨rfl, l, rfl⟩, gains⟩

/-- The number of related rows is selected for each relation in turn. -/
inductive Counts (env : Env) (inner : Caller) (m : Model) :
    Query → List (Value × Value) → Query → Prop where
  | done (q : Query) : Counts env inner m q [] q
  | step {q between after : Query} {relation callback : Value} {rest : List (Value × Value)}
      (l : Linking env inner m q.select.from_ relation callback)
      (selected : Selects q l.column between) (later : Counts env inner m between rest after) :
      Counts env inner m q ((relation, callback) :: rest) after

theorem withCount_eq_ok_iff (known : env.catalog.model? q.select.source.model = some m)
    {relations : Value} :
    withCount env inner relations q = .ok () after ↔
      ∃ items, counted relations q = .ok items q ∧ Counts env inner m q items after := by
  have same {q between : Query} {f : Fragment} (selects : Selects q f between) :
      between.select.source = q.select.source := by rw [selects.selected]
  unfold withCount
  constructor
  · intro whole
    obtain ⟨given, steady⟩ := steady_counted (v := relations)
    obtain ⟨items, _, named, run⟩ := ok_of_bind whole
    obtain ⟨-, rfl⟩ := ok_of_ofExcept (steady ▸ named)
    refine ⟨items, named, ?_⟩
    clear whole named steady
    induction items generalizing q with
    | nil =>
      cases run
      exact .done _
    | cons item rest ih =>
      obtain ⟨_, between, one, run⟩ := ok_of_bind run
      obtain ⟨_, _, asked, one⟩ := ok_of_bind one
      obtain ⟨rfl, l, rfl⟩ := (countQuery_eq_ok_iff known).mp asked
      have selects : Selects q l.column between := selectRaw_eq_ok_iff.mp one
      exact .step l selects (ih (by rwa [same selects]) run)
  · rintro ⟨items, named, counts⟩
    refine bind_eq_ok named ?_
    clear named
    induction counts with
    | done => rfl
    | @step q between after relation callback rest l selects later ih =>
      have asked : countQuery env inner relation callback q = .ok l.number q :=
        (countQuery_eq_ok_iff known).mpr ⟨rfl, l, rfl⟩
      have selecting := selectRaw_eq_ok_iff.mpr selects
      exact bind_eq_ok (bind_eq_ok asked selecting) (ih (by rwa [same selects]))

/-- Whatever asks for related rows or for their number, at any depth of calls: it ends well if and
only if there is a linking for the relation and the refinement and what it writes passes the guard,
and then it adds the subquery of that linking and nothing else. Of every linking the subquery keeps
to the rows linked to the row around it. -/
theorem related_rows_stay_linked {depth : Nat}
    (known : env.catalog.model? q.select.source.model = some m) :
    (∀ junction relation callback operator count after,
      whereHas env (callUpTo env depth) junction relation callback operator count q = .ok () after ↔
        ∃ l : Linking env (callUpTo env depth) m q.select.from_ relation callback,
          Gains q junction (l.filter operator count) "where_has" after) ∧
    (∀ junction relation operator count after,
      has env (callUpTo env depth) junction relation operator count q = .ok () after ↔
        ∃ l : Linking env (callUpTo env depth) m q.select.from_ relation .null,
          Gains q junction (if operator.same (.text ">=") && count.same (.int 1)
            then l.filter .null .null else l.filter operator count) "where_has" after) ∧
    (∀ junction relation callback after,
      doesntHave env (callUpTo env depth) junction relation callback q = .ok () after ↔
        ∃ l : Linking env (callUpTo env depth) m q.select.from_ relation callback,
          Gains q junction (.plain "NOT EXISTS (" ++ l.existence ++ .plain ")") "doesnt_have"
            after) ∧
    (∀ relations after, withCount env (callUpTo env depth) relations q = .ok () after ↔
      ∃ items, counted relations q = .ok items q ∧
        Counts env (callUpTo env depth) m q items after) ∧
    ∀ parent relation callback (l : Linking env (callUpTo env depth) m parent relation callback),
      l.Faithful := by
  refine ⟨fun _ _ _ _ _ _ => whereHas_eq_ok_iff known,
    fun junction relation operator count after => ?_,
    fun _ _ _ _ => doesntHave_eq_ok_iff known, fun _ _ => withCount_eq_ok_iff known,
    fun _ _ _ l => l.faithful⟩
  unfold has
  split
  · exact whereHas_eq_ok_iff known
  · exact whereHas_eq_ok_iff known

/-- Posts that are kept when they are deleted. -/
def keptPost : Model := { plainPost with softDeletes := true }

def keptEnv : Env := { plainEnv with catalog := ⟨#[keptPost, Loader.author]⟩ }

/-- A refinement with an alternative. -/
def shortOrPublished : Value :=
  .recipe [.mk "where" [.text "short", .int 1] [], .mk "or_where" [.text "published", .int 2] []]
    false

/-- What the existence of short or published posts of an author is asked by. -/
def shortOrPublishedPosts :
    Linking keptEnv (callUpTo keptEnv 1) Loader.author "authors" (.text "latest")
      shortOrPublished where
  d := Loader.latestRelation
  related := keptPost
  base := .blank keptPost.source .null
  sub :=
    { Query.blank keptPost.source .null with
      select.conditions := [.leaf .and (.compare "short" "=" (.int 1)),
        .leaf .or (.compare "published" "=" (.int 2))] }
  linkage := ⟨[("author_id", [])], []⟩
  tests := [.equal "posts.author_id" "authors.id"]
  declared := rfl
  target := rfl
  new := rfl
  refined := rfl
  joined := rfl
  linked := rfl

/-- The alternative stays in parentheses: no post of another author and no deleted one counts. -/
theorem short_or_published_posts_stay_linked :
    keptEnv.catalog.model? Loader.newAuthors.select.source.model = some Loader.author ∧
    shortOrPublishedPosts.existence = ⟨"SELECT 1 FROM posts WHERE posts.author_id = authors.id" ++
      " AND ((short = ? OR published = ?) AND posts.deleted_at IS NULL)", [.int 1, .int 2]⟩ ∧
    (∃ after, whereHas keptEnv (callUpTo keptEnv 1) .and (.text "latest") shortOrPublished .null
      .null Loader.newAuthors = .ok () after) ∧
    shortOrPublishedPosts.Faithful := by
  have known : keptEnv.catalog.model? Loader.newAuthors.select.source.model =
      some Loader.author := rfl
  have passed : Guard.checkPiece (shortOrPublishedPosts.filter .null .null).text "where_has" =
      .ok () := by decide +kernel
  exact ⟨known, rfl,
    ⟨_, ((related_rows_stay_linked known).1 _ _ _ _ _ _).mpr
      ⟨shortOrPublishedPosts, passed, rfl⟩⟩,
    (related_rows_stay_linked known).2.2.2.2 _ _ _ shortOrPublishedPosts⟩

end Build

end Relata
