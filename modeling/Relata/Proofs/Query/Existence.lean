import Relata.Proofs.Query.Chunk
import Relata.Proofs.Query.Depth
import Relata.Proofs.Sql.Correlated

/-!
The subquery by which a query asks for the existence of related rows, next to the query that loads
those of one parent. Both are built for the same relation and the same refinement, by functions that
share none of their text. Main statement: they read the same tables, and for a row of these tables
inside a row of the parent's, the subquery and the query for the key of that parent ask for the
same, if nothing is joined by OR; except that the subquery never asks for the extreme value of a
relation that picks one row of many.
-/

namespace Relata

open Sql (Clause Condition Fragment Junction LinkTest RowView Select Subquery Test Token)

namespace Env

/-- The tests that link rows of a relation to a row of the table `parent` around them. -/
def linkTests (env : Env) (d : Descriptor) (m related : Model) (parent : String) :
    Except Error (List LinkTest) :=
  let table := related.table
  let name := Descriptor.written
  match d.kind with
  | .hasOne | .hasMany =>
    .ok [.equal s!"{table}.{name d.foreignKey}" s!"{parent}.{name d.localKey}"]
  | .belongsTo => .ok [.equal s!"{table}.{name d.ownerKey}" s!"{parent}.{name d.foreignKey}"]
  | .morphOne | .morphMany | .morphOneOfMany => do
    let tags ← env.tags.possibleTags m
    return [.equal s!"{table}.{name d.idColumn}" s!"{parent}.{name d.localKey}",
      .own (.among false s!"{table}.{name d.typeColumn}" tags)]
  | .belongsToMany =>
    .ok [.equal s!"{name d.table}.{name d.foreignPivotKey}" s!"{parent}.{name d.parentKey}"]
  | .hasOneThrough | .hasManyThrough => do
    let between := (← env.throughModel d).table
    return [.equal s!"{between}.{name d.firstKey}" s!"{parent}.{name d.localKey}"]
  | .morphTo => .error .badType

end Env

namespace Build

theorem separated_cons (word : String) (f : Fragment) (rest : List Fragment) :
    separated word (f :: rest) = f ++ .concat (rest.map fun g => .plain word ++ g) := by
  induction rest generalizing f with
  | nil => simp [separated, Fragment.concat]
  | cons g more ih =>
    rw [separated, ih]
    · simp [Fragment.concat, Fragment.append_assoc]
    · exact List.cons_ne_nil _ _

/-- Conditions in parentheses behind others, as they are written. -/
theorem concat_group (cs : List Clause) :
    Fragment.concat ((Condition.rowFrom true
      [.group .and false (Condition.mappedAll LinkTest.own cs)]).map Token.linkFragment) =
      if (Clause.compile cs).text.isEmpty then .empty
      else .plain " AND (" ++ Clause.compile cs ++ .plain ")" := by
  have inside : (Condition.rowFrom false (Condition.mappedAll LinkTest.own cs)).map
      Token.linkFragment = (Condition.row cs).map Token.fragment := by
    rw [Condition.rowFrom_mappedAll, List.map_map]
    exact List.map_congr_left fun t _ => t.linkFragment_mapped
  have text : (Clause.compile cs).text = Sql.tokensText (Condition.row cs) := rfl
  -- Conditions that say nothing leave no parentheses behind.
  by_cases none : Condition.row cs = []
  · have empty : Condition.rowFrom false (Condition.mappedAll LinkTest.own cs) = [] := by
      simpa [none] using inside
    simp [Condition.rowFrom, Condition.tokens, empty, text, none, Fragment.concat]
  · have some_ : Condition.rowFrom false (Condition.mappedAll LinkTest.own cs) ≠ [] := by
      intro empty
      simp [empty, none] at inside
    have written : (Clause.compile cs).text ≠ "" := by
      rwa [text, Ne, Sql.tokensText_eq_empty_iff]
    have row : Condition.rowFrom true
        [.group .and false (Condition.mappedAll LinkTest.own cs)] =
        .junction .and :: .opening false ::
          (Condition.rowFrom false (Condition.mappedAll LinkTest.own cs) ++ [.closing]) := by
      simp [Condition.rowFrom, Condition.tokens, Condition.junction, some_]
    rw [row, if_neg (by simpa using written)]
    simp only [List.map_cons, List.map_append, List.map_nil, inside, Fragment.concat,
      Fragment.concat_append, Fragment.append_empty]
    rw [← Fragment.append_assoc, ← Fragment.append_assoc]
    rfl

/-- The tests of a subquery, with the conditions in parentheses behind them, as they are written. -/
theorem concat_tests {tests : List LinkTest} (some_ : tests ≠ []) (cs : List Clause) :
    Fragment.concat ((Condition.row (tests.map (.leaf .and) ++
      [.group .and false (Condition.mappedAll LinkTest.own cs)])).map Token.linkFragment) =
      separated " AND " (tests.map LinkTest.fragment) ++
        if (Clause.compile cs).text.isEmpty then .empty
        else .plain " AND (" ++ Clause.compile cs ++ .plain ")" := by
  have later (ts : List LinkTest) : Fragment.concat ((Condition.rowFrom true (ts.map (.leaf .and) ++
      [.group .and false (Condition.mappedAll LinkTest.own cs)])).map Token.linkFragment) =
      .concat ((ts.map LinkTest.fragment).map fun f => .plain " AND " ++ f) ++
        if (Clause.compile cs).text.isEmpty then .empty
        else .plain " AND (" ++ Clause.compile cs ++ .plain ")" := by
    induction ts with
    | nil => simpa [Fragment.concat] using concat_group cs
    | cons t rest ih =>
      have row : Condition.rowFrom true ((t :: rest).map (.leaf .and) ++
          [.group .and false (Condition.mappedAll LinkTest.own cs)]) =
          .junction .and :: .leaf t :: Condition.rowFrom true (rest.map (.leaf .and) ++
            [.group .and false (Condition.mappedAll LinkTest.own cs)]) := by
        simp [Condition.rowFrom, Condition.tokens, Condition.junction]
      rw [row]
      simp only [List.map_cons, Fragment.concat, ih, Fragment.append_assoc]
      rfl
  cases tests with
  | nil => exact absurd rfl some_
  | cons t rest =>
    have row : Condition.row ((t :: rest).map (.leaf .and) ++
        [.group .and false (Condition.mappedAll LinkTest.own cs)]) =
        .leaf t :: Condition.rowFrom true (rest.map (.leaf .and) ++
          [.group .and false (Condition.mappedAll LinkTest.own cs)]) := by
      simp [Condition.row, Condition.rowFrom, Condition.tokens]
    rw [row, List.map_cons, List.map_cons, separated_cons]
    simp only [Fragment.concat, later, Fragment.append_assoc]
    rfl

/-- The subquery with the joins of a relation, the tests that link its rows to the row around them,
and conditions in parentheses behind these. -/
def subqueryOf (related : Model) (joins : List Sql.Join) (tests : List LinkTest)
    (own : List Clause) : Subquery :=
  ⟨related.table, joins,
    tests.map (.leaf .and) ++ [.group .and false (Condition.mappedAll .own own)]⟩

/-- A subquery as it is written, after the selected expression. -/
theorem rows_subqueryOf {related : Model} {joins : List Sql.Join} {tests : List LinkTest}
    (some_ : tests ≠ []) (sub : Query) :
    (subqueryOf related joins tests (sub.select.whereList related.table)).rows =
      .plain s!" FROM {(⟨related.table, joins, []⟩ : Subquery).source} WHERE " ++
        separated " AND " (tests.map LinkTest.fragment) ++
        furtherConditions sub related.table := by
  have tokens := concat_tests some_ (sub.select.whereList related.table)
  rw [Subquery.rows, Subquery.tokens, subqueryOf, tokens, furtherConditions, ← Fragment.append_assoc]
  rfl

/-- The conditions in parentheses restrict the rows besides the linking tests. -/
theorem reading_subqueryOf {related : Model} {joins : List Sql.Join} {tests : List LinkTest}
    (some_ : tests ≠ []) (own : List Clause) (v : LinkTest → Bool) :
    Condition.reading v (subqueryOf related joins tests own).tokens =
      some (tests.all v && Condition.allHold (v ∘ .own) own) := by
  have alone : Condition.alternativeHolds v
      [.group .and false (Condition.mappedAll LinkTest.own own)] = false :=
    Condition.alternativeHolds_eq_false v (by simp [Condition.junction])
  rw [Subquery.tokens, Condition.reading_row, subqueryOf, Condition.allHold_leaves_append v some_,
    alone, Condition.leadingHold_group, Condition.allHold_mappedAll, Bool.or_false]

/-- A model is known by one tag at least. -/
theorem possibleTags_ne_nil {t : TagMap} {m : Model} {tags : List Value}
    (h : t.possibleTags m = .ok tags) : tags ≠ [] := by
  unfold TagMap.possibleTags at h
  dsimp only at h
  split at h
  · obtain rfl := Except.ok.inj h
    rw [Value.distinct, List.foldl_append, List.foldl_cons, List.foldl_nil]
    generalize List.foldl _ [] _ = seen
    cases seen with
    | nil => simp
    | cons v rest =>
      split
      · exact List.cons_ne_nil _ _
      · simp
  · cases h

variable {env : Env} {d : Descriptor} {m related : Model} {parent : String} {keys : List Value}
  {l : Linkage}

theorem equals_append (s : String) : " = " ++ s = " " ++ ("=" ++ (" " ++ s)) := by
  rw [← String.append_assoc, ← String.append_assoc]
  rfl

theorem linkTests_ne_nil {tests : List LinkTest}
    (h : env.linkTests d m related parent = .ok tests) : tests ≠ [] := by
  unfold Env.linkTests at h
  dsimp only at h
  cases kind : d.kind with
  | hasOne | hasMany | belongsTo | belongsToMany =>
    rw [kind] at h
    cases h
    simp
  | morphOne | morphMany | morphOneOfMany | hasOneThrough | hasManyThrough =>
    rw [kind] at h
    obtain ⟨_, -, h⟩ := Relata.ok_of_bind h
    cases h
    simp
  | morphTo =>
    rw [kind] at h
    cases h

/-- The link of a relation in a subquery joins the tables that a chunk joins, and fails where either
of the two fails. -/
theorem link_run (keys : List Value) {q : Query}
    (model : env.catalog.model? q.select.source.model = some m) :
    link env d related parent q = ofExcept (do
      let l ← env.linkage d m related keys
      let tests ← env.linkTests d m related parent
      return ⟨(⟨related.table, l.joins, []⟩ : Subquery).source,
        tests.map LinkTest.fragment⟩) q := by
  unfold link Env.linkage Env.linkTests
  dsimp only
  cases kind : d.kind with
  | hasOne | hasMany | belongsTo | belongsToMany =>
    change EStateM.Result.ok _ q = EStateM.Result.ok _ q
    simp [Subquery.source, LinkTest.fragment, String.append_assoc, equals_append]
  | morphOne | morphMany | morphOneOfMany =>
    have known : Build.model env q = .ok m q := model_eq_ok model
    change EStateM.bind (Build.model env) _ q = _
    rw [EStateM.bind, known]
    dsimp only
    cases possible : env.tags.possibleTags m with
    | ok tags =>
      have some_ : tags.isEmpty = false := by simpa using possibleTags_ne_nil possible
      change EStateM.Result.ok _ q = EStateM.Result.ok _ q
      simp [Subquery.source, LinkTest.fragment, Test.fragment, some_, String.append_assoc]
    | error e => rfl
  | hasOneThrough | hasManyThrough =>
    cases found : env.throughModel d with
    | ok through =>
      change EStateM.Result.ok _ q = EStateM.Result.ok _ q
      simp [Subquery.source, LinkTest.fragment, String.append_assoc, equals_append]
    | error e => rfl
  | morphTo => rfl

/-- The link of a relation in a subquery joins the tables that a chunk joins. -/
theorem link_eq_ok (linked : env.linkage d m related keys = .ok l) {q after : Query} {found : Link}
    (model : env.catalog.model? q.select.source.model = some m)
    (run : link env d related parent q = .ok found after) :
    q = after ∧ ∃ tests, env.linkTests d m related parent = .ok tests ∧ tests ≠ [] ∧
      found.source = (⟨related.table, l.joins, []⟩ : Subquery).source ∧
      found.conditions = tests.map LinkTest.fragment := by
  rw [link_run keys model] at run
  obtain ⟨written, rfl⟩ := ok_of_ofExcept run
  obtain ⟨_, linked', written⟩ := Relata.ok_of_bind written
  obtain ⟨tests, tested, written⟩ := Relata.ok_of_bind written
  cases linked.symm.trans linked'
  cases written
  exact ⟨rfl, tests, tested, linkTests_ne_nil tested, rfl, rfl⟩

/-- What a filter on the existence of related rows writes. -/
theorem existsQuery_eq_ok {inner : Caller} {relation callback : Value} {q after : Query}
    {f : Fragment} (model : env.catalog.model? q.select.source.model = some m)
    (declared : env.require m relation = .ok d)
    (run : existsQuery env inner relation callback q = .ok f after) :
    ∃ related base u sub found, env.relatedModel d = .ok related ∧ related.query = .ok base ∧
      (do discard (chain inner d.constraints); refineIfGiven inner callback : Build Unit) base =
        .ok u sub ∧
      link env d related q.select.from_ q = .ok found after ∧
      f = .plain "SELECT 1" ++ (.plain s!" FROM {found.source} WHERE " ++
        separated " AND " found.conditions ++ furtherConditions sub related.table) := by
  obtain ⟨rows, _, run, whole⟩ := ok_of_bind run
  cases whole
  obtain ⟨d', between, first, run⟩ := ok_of_bind run
  have required : Build.require env relation q = .ok d q :=
    bind_eq_ok (model_eq_ok model) (by rw [declared]; rfl)
  rw [required] at first
  cases first
  dsimp only at run
  split at run
  · cases run
  · obtain ⟨q', between, reading, run⟩ := ok_of_bind run
    cases reading
    obtain ⟨related, between, first, run⟩ := ok_of_bind run
    obtain ⟨hrelated, rfl⟩ := ok_of_ofExcept first
    obtain ⟨base, between, first, run⟩ := ok_of_bind run
    obtain ⟨hbase, rfl⟩ := ok_of_ofExcept first
    obtain ⟨⟨u, sub⟩, between, refining, run⟩ := ok_of_bind run
    obtain ⟨refined, rfl⟩ := ok_of_on refining
    obtain ⟨found, between, linking, run⟩ := ok_of_bind run
    cases run
    exact ⟨related, base, u, sub, found, hrelated, hbase, refined, linking, rfl⟩

end Build

/-- A row of the tables that a relation reads, inside a row of the table `parent` with the key: it
knows the columns that link it, those of the related table also by their full names, and it does
not know the column of the row around it. A relation of a table to itself has no such row, as the
inner table hides the outer one. -/
structure RelatedRow (d : Descriptor) (related : Model) (l : Linkage) (parent : String)
    (key : Value) (row : RowView) (outer : String → Option Value) : Prop where
  known : ∀ c ∈ l.columns, (row.value c.1).isSome
  qualified : ∀ c ∈ d.linkColumns, row.value s!"{related.table}.{c}" = row.value c
  hidden : row.value s!"{parent}.{Descriptor.written d.parentAttribute}" = none
  parent : outer s!"{parent}.{Descriptor.written d.parentAttribute}" = some key

section

variable {env : Env} {d : Descriptor} {m related : Model} {parent : String} {l : Linkage}
  {key : Value} {row : RowView} {outer : String → Option Value}

theorem truth_equal {first second column : String} (known : (row.value column).isSome)
    (named : row.value first = row.value column) (hidden : row.value second = none)
    (given : outer second = some key) :
    (LinkTest.equal first second).truth row outer = row.truth (.among false column [key]) := by
  obtain ⟨v, hv⟩ := Option.isSome_iff_exists.mp known
  simp [LinkTest.truth, row.among, named, hv, hidden, given]

theorem truth_qualified {short full : String} {values : List Value}
    (named : row.value full = row.value short) :
    row.truth (.among false full values) = row.truth (.among false short values) := by
  rw [row.among, row.among, named]

/-- The tests of the subquery link a row to the row around it just as those of a chunk link it to
the key. -/
theorem all_linkTests (linked : env.linkage d m related [key] = .ok l) {tests : List LinkTest}
    (tested : env.linkTests d m related parent = .ok tests)
    (inside : RelatedRow d related l parent key row outer) :
    tests.all (LinkTest.truth row outer) = l.tests.all row.truth := by
  obtain ⟨known, qualified, hidden, given⟩ := inside
  unfold Env.linkage at linked
  unfold Env.linkTests at tested
  dsimp only at linked tested
  cases kind : d.kind with
  | hasOne | hasMany | belongsTo =>
    rw [kind] at linked tested
    cases linked
    cases tested
    simp only [Descriptor.linkColumns, Descriptor.parentAttribute, kind] at qualified hidden given
    have equal := truth_equal (known _ List.mem_cons_self) (qualified _ List.mem_cons_self) hidden
      given
    simpa [Linkage.tests] using equal
  | morphOne | morphMany | morphOneOfMany =>
    rw [kind] at linked tested
    obtain ⟨tags, possible, linked⟩ := ok_of_bind linked
    rw [possible] at tested
    cases linked
    cases tested
    simp only [Descriptor.linkColumns, Descriptor.parentAttribute, kind] at qualified hidden given
    -- The type is tested before the identifier in a chunk, and after it in the subquery.
    have typed : row.truth (.among false _ tags) = row.truth (.among false _ tags) :=
      truth_qualified (qualified (Descriptor.written d.typeColumn) (by simp))
    have equal := truth_equal (known (Descriptor.written d.idColumn, [key]) (by simp))
      (qualified (Descriptor.written d.idColumn) (by simp)) hidden given
    simp only [Linkage.tests, List.map_cons, List.map_nil, List.all_cons, List.all_nil, equal,
      Bool.and_comm]
    rw [← typed]
    rfl
  | belongsToMany =>
    rw [kind] at linked tested
    cases linked
    cases tested
    simp only [Descriptor.parentAttribute, kind] at hidden given
    have equal := truth_equal (known _ List.mem_cons_self) rfl hidden given
    simpa [Linkage.tests] using equal
  | hasOneThrough | hasManyThrough =>
    rw [kind] at linked tested
    obtain ⟨through, found, linked⟩ := ok_of_bind linked
    rw [found] at tested
    cases linked
    cases tested
    simp only [Descriptor.parentAttribute, kind] at hidden given
    have equal := truth_equal (known _ List.mem_cons_self) rfl hidden given
    simpa [Linkage.tests] using equal
  | morphTo =>
    rw [kind] at linked
    cases linked

/-- The WHERE clause of a query that links rows to one key, next to a subquery with the same further
conditions: joined by AND, these restrict both alike. -/
theorem reading_eq_subquery {tests : List LinkTest} {chunk plain : Select}
    (linked : env.linkage d m related [key] = .ok l)
    (tested : env.linkTests d m related parent = .ok tests) (some_ : tests ≠ [])
    (inside : RelatedRow d related l parent key row outer)
    (own : chunk.conditions =
      (l.tests ++ d.extremeTests related).map (.leaf .and) ++ plain.conditions)
    (only_and : ∀ c ∈ plain.conditions, c.junction = .and)
    (scope : chunk.deletionScope chunk.from_ = plain.deletionScope related.table) :
    Condition.reading row.truth chunk.whereTokens =
      (Condition.reading (LinkTest.truth row outer)
          (Build.subqueryOf related l.joins tests (plain.whereList related.table)).tokens).map
        (· && (d.extremeTests related).all row.truth) := by
  have some_' : l.tests ++ d.extremeTests related ≠ [] := by
    simp [Linkage.tests, Env.columns_ne_nil linked]
  have alone : LinkTest.truth row outer ∘ LinkTest.own = row.truth := rfl
  rw [Sql.Select.reading_of_leaves some_' own, Condition.alternativeHolds_eq_false _ only_and,
    scope, Build.reading_subqueryOf some_, alone, Sql.Select.allHold_whereList_eq,
    Condition.allHold_eq_leadingHold _ only_and, all_linkTests linked tested inside]
  simp only [Option.map_some, List.all_append, Bool.or_false, Bool.and_assoc, Bool.and_comm]

end

namespace Build

variable {env : Env} {J : Junction → Prop}

/-- What a filter makes of the calls recorded on a relation and of its callback, a chunk makes of
them too: the filter is one call deeper. -/
theorem finish_refining_of_filter {d : Descriptor} {callback : Value} {base sub : Query} {u : Unit}
    (h : (do
      discard (chain (callUpTo env (callDepth - 1)) d.constraints)
      refineIfGiven (callUpTo env (callDepth - 1)) callback : Build Unit) base = .ok u sub) :
    finish base (env.refining d callback) = .ok sub := by
  have deeper : Grown (callUpTo env (callDepth - 1)) env.call :=
    within_callUpTo env (Nat.sub_le _ _)
  have shallow : env.refining d callback base = .ok u sub :=
    ((within_chain deeper d.constraints).discard.bind fun _ =>
      within_refineIfGiven deeper callback) base u sub h
  rw [finish, EStateM.run, shallow]

/-- A filter with loading asks for the existence of the rows that it loads. -/
theorem conditions_of_withWhereHas {name : String} {callback : Value} {answer : Answer}
    {q after : Query} (asked : env.NarrowingCallback J callback)
    (run : env.call (.mk "with_where_has" [.text name, callback] []) q = .ok answer after) :
    ∃ f between, existsQuery env (callUpTo env (callDepth - 1)) (.text name) callback q =
        .ok f between ∧
      after.select.conditions = between.select.conditions ++
        [.leaf .and (.raw s!"EXISTS ({f.text})" f.values "where_has")] := by
  have filter : done (withWhereHas env (callUpTo env (callDepth - 1)) (.text name) callback) q =
      .ok answer after := by
    cases asked with
    | none => exact run
    | recipe => exact run
  obtain ⟨_, ended, run, done_⟩ := ok_of_bind filter
  cases done_
  obtain ⟨_, middle, filtering, loading⟩ := ok_of_bind run
  obtain ⟨f, between, exists_, adding⟩ := ok_of_bind filtering
  obtain ⟨condition, _, made, adding⟩ := ok_of_bind adding
  cases made
  obtain ⟨c, _, guarded, added⟩ := ok_of_bind adding
  obtain ⟨raw, rfl⟩ := ok_of_ofExcept guarded
  obtain ⟨text, htext, rfl⟩ := Sql.Clause.raw_eq_ok raw
  obtain rfl := Value.text.inj htext
  cases added
  obtain ⟨-, own, none, adds⟩ := narrows_with_ (J := fun _ => False) _ _ _ loading
  obtain ⟨_, again, extended, -⟩ := adds _ (.refl _)
  rw [loading] at again
  cases again
  obtain rfl : own = [] := List.eq_nil_iff_forall_not_mem.mpr none
  refine ⟨f, _, exists_, extended.conditions.trans ?_⟩
  simp

end Build

namespace Loader

variable {self : Loader} {env : Env} {d : Descriptor} {m : Model} {path name : String}
  {key callback : Value} {q after chunk : Query} {answer : Answer}

/-- A query filtered by the existence of related rows, next to the query by which the same relation
is loaded with the same refinement for the key of one parent. The subquery reads the tables that the
chunk reads, without ordering, grouping or limits on either side, and a row of them inside a row of
the parent's table passes the chunk if and only if it passes the subquery and, where the relation
picks one row of many, has the extreme value. -/
theorem reading_of_exists (model : env.catalog.model? q.select.source.model = some m)
    (declared : env.require m (.text name) = .ok d)
    (recorded : ∀ c ∈ d.constraints, env.NarrowingCall (· = .and) c)
    (asked : env.NarrowingCallback (· = .and) callback)
    (filtered : env.call (.mk "with_where_has" [.text name, callback] []) q = .ok answer after)
    (refined : self.callbackFor path = callback)
    (built : self.chunkQuery env d m path [key] = .ok chunk) :
    ∃ related base plain l tests sub, env.relatedModel d = .ok related ∧
      related.query = .ok base ∧ Build.finish base (env.refining d callback) = .ok plain ∧
      env.linkage d m related [key] = .ok l ∧
      env.linkTests d m related q.select.from_ = .ok tests ∧
      sub = Build.subqueryOf related l.joins tests (plain.select.whereList related.table) ∧
      after.select.conditions = q.select.conditions ++
        [.leaf .and (.raw s!"EXISTS ({sub.fragment.text})" sub.fragment.values "where_has")] ∧
      sub.table = chunk.select.from_ ∧ sub.joins = chunk.select.joins ∧
      chunk.select.frame = (Select.all related.source .null).frame ∧ chunk.branches = [] ∧
      ∀ (row : RowView) (outer : String → Option Value),
        RelatedRow d related l q.select.from_ key row outer →
        Condition.reading row.truth chunk.select.whereTokens =
          (Condition.reading (LinkTest.truth row outer) sub.tokens).map
            (· && (d.extremeTests related).all row.truth) := by
  obtain ⟨f, between, exists_, conditions⟩ := Build.conditions_of_withWhereHas asked filtered
  obtain ⟨related, base, _, sub, found, hrelated, hbase, refining, linking, written⟩ :=
    Build.existsQuery_eq_ok model declared exists_
  obtain ⟨related', base', plain, l, hrelated', hbase', hplain, hl, joined, linked, beside⟩ :=
    chunkQuery_eq_ok built recorded (by rwa [refined])
  obtain rfl : related = related' := Except.ok.inj (hrelated.symm.trans hrelated')
  -- From here on both are made of one new query, by one refinement.
  obtain rfl : base = base' := Except.ok.inj (hbase.symm.trans hbase')
  obtain ⟨rfl, tests, tested, some_, source, links⟩ := Build.link_eq_ok hl model linking
  have refining' := Build.finish_refining_of_filter refining
  rw [refined] at hplain
  obtain rfl : sub = plain := Except.ok.inj (refining'.symm.trans hplain)
  have from_ : chunk.select.from_ = related.table := congrArg Select.from_ linked.frame
  refine ⟨related, base, sub, l, tests, _, hrelated, hbase, hplain, hl, tested, rfl, ?_, from_.symm,
    linked.joins.symm, linked.frame, linked.branches, fun row outer inside => ?_⟩
  · rw [conditions, Subquery.fragment_eq_rows, Build.rows_subqueryOf some_, written, source, links]
  · have scope : chunk.select.deletionScope chunk.select.from_ =
        sub.select.deletionScope related.table := by
      rw [from_, Select.deletionScope, beside.source, beside.trashed, Select.deletionScope]
    exact reading_eq_subquery hl tested some_ inside linked.conditions joined scope

/-- Authors, each with the latest of their posts. -/
def author : Model :=
  { plainPost with
    id := 1
    name := "Author"
    key := "Author"
    ancestry := [.model 1, .root]
    namedTable := .text "authors"
    declared := [("latest", 1, ⟨.direct [("kind", .text "has_one"), ("model", .model 0),
      ("foreign_key", .text "author_id"), ("column", .text "created_at"),
      ("aggregate", .text "max"), ("local_key", .text "id")], [], none, []⟩)] }

def authorEnv : Env := { plainEnv with catalog := ⟨#[plainPost, author]⟩ }

/-- The relation of authors to their latest posts, as it is resolved. -/
def latestRelation : Descriptor :=
  { (default : Descriptor) with
    kind := .hasOne
    target := .model 0
    foreignKey := some "author_id"
    localKey := some "id"
    pivotAlias := "pivot"
    column := some "created_at"
    aggregate := some .max }

def onlyPublished : Value := .recipe [.mk "where" [.text "published", .int 1] []] false

def newAuthors : Query := .blank author.source .null

/-- Authors whose latest post is meant to be published, with that post to be loaded. -/
def authorsOfPublished : Query :=
  { newAuthors with
    select :=
      { newAuthors.select with
        conditions := [.leaf .and (.raw ("EXISTS (SELECT 1 FROM posts WHERE " ++
          "posts.author_id = authors.id AND (published = ?))") [.int 1] "where_has")] }
    loads := ⟨[.text "latest"], [], [(.text "latest", onlyPublished)]⟩ }

/-- The test for the latest post of an author. -/
def isLatest : Test :=
  .raw ("posts.created_at = (SELECT MAX(sub.created_at) FROM posts sub WHERE " ++
    "sub.author_id = posts.author_id)") [] "where_raw"

/-- The query that loads the latest post of the author seven. -/
def latestPosts : Query :=
  postsWith [.leaf .and (.among false "author_id" [.int 7]), .leaf .and isLatest,
    .leaf .and (.compare "published" "=" (.int 1))]

/-- A published post of the author seven, with a later one beside it. -/
def olderPost : RowView where
  value column := if column = "author_id" ∨ column = "posts.author_id" then some (.int 7) else none
  equal := Value.same
  truth
    | .among false column items => items.any fun v =>
      (if column = "author_id" ∨ column = "posts.author_id" then some (Value.int 7) else none).any
        (Value.same · v)
    | .compare _ _ _ => true
    | _ => false
  among _ _ := rfl

/-- The row of the author seven. -/
def authorSeven (column : String) : Option Value :=
  if column = "authors.id" then some (.int 7) else none

/-- The older post counts as an existing one, and is not loaded. -/
theorem older_post_exists :
    authorEnv.call (.mk "with_where_has" [.text "latest", onlyPublished] []) newAuthors =
      .ok .self authorsOfPublished ∧
    (Loader.ofRequest authorsOfPublished.loads .null false).chunkQuery authorEnv latestRelation
      author "latest" [.int 7] = .ok latestPosts ∧
    Condition.reading olderPost.truth latestPosts.select.whereTokens = some false ∧
    ∃ sub : Subquery, authorsOfPublished.select.conditions =
        [.leaf .and (.raw s!"EXISTS ({sub.fragment.text})" sub.fragment.values "where_has")] ∧
      Condition.reading (LinkTest.truth olderPost authorSeven) sub.tokens = some true := by
  have filtered : authorEnv.call (.mk "with_where_has" [.text "latest", onlyPublished] [])
      newAuthors = .ok .self authorsOfPublished := by
    rfl
  have built : (Loader.ofRequest authorsOfPublished.loads .null false).chunkQuery authorEnv
      latestRelation author "latest" [.int 7] = .ok latestPosts := by
    rfl
  have recorded : ∀ c ∈ latestRelation.constraints, authorEnv.NarrowingCall (· = .and) c := by
    intro c hc
    cases hc
  have asked : authorEnv.NarrowingCallback (· = .and) onlyPublished := by
    refine .recipe fun c hc => ?_
    obtain rfl := List.mem_singleton.mp hc
    exact .where_ (m := .where_ .and) rfl rfl rfl
  obtain ⟨related, base, plain, l, tests, sub, hrelated, hbase, hplain, hl, tested, subquery,
    conditions, -, -, -, -, reading⟩ := reading_of_exists (q := newAuthors) (m := author) rfl
      (show authorEnv.require author (.text "latest") = .ok latestRelation by rfl) recorded asked
      filtered rfl built
  obtain rfl : plainPost = related := Except.ok.inj hrelated
  obtain rfl : newPosts = base := Except.ok.inj hbase
  have own : Build.finish newPosts (authorEnv.refining latestRelation onlyPublished) =
      .ok (postsWith [.leaf .and (.compare "published" "=" (.int 1))]) := by
    rfl
  obtain rfl := Except.ok.inj (hplain.symm.trans own)
  cases hl
  cases tested
  have inside : RelatedRow latestRelation plainPost ⟨[("author_id", [.int 7])], []⟩
      newAuthors.select.from_ (.int 7) olderPost authorSeven := by
    refine ⟨fun c hc => ?_, fun c hc => ?_, rfl, rfl⟩
    · obtain rfl := List.mem_singleton.mp hc
      rfl
    · obtain rfl := List.mem_singleton.mp hc
      rfl
  have exists_ : Condition.reading (LinkTest.truth olderPost authorSeven) sub.tokens =
      some true := by
    rw [subquery, Build.reading_subqueryOf (List.cons_ne_nil _ _)]
    rfl
  refine ⟨filtered, built, ?_, sub, conditions, exists_⟩
  rw [reading olderPost authorSeven inside, exists_]
  rfl

end Loader

end Relata
