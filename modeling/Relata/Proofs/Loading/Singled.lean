import Relata.Proofs.Loading.ReadOnly
import Relata.Proofs.Query.Chunk
import Relata.Proofs.Query.Morphed
import Relata.Proofs.Sql.Appended

/-!
Queries singled out: to the row with an identifier, or to the rows in which a column has its extreme
value. Both put a test of their own at the end of the root conditions, joined by AND, and nothing
sets the conditions before it in parentheses. Main statement: the test restricts the last alternative
of the conditions, in the statement that is sent for an identifier as in the query for an extreme
value; the rows of an alternative before it come in without passing the test.
-/

namespace Relata

open Sql (Condition Fragment Select Statement Test)

/-- The text of the statement of a query, with its WHERE clause in it. -/
theorem Query.text_of_checked {q : Query} {context : String} {f : Fragment}
    (passed : q.statement.checked context = .ok f) : ∃ columns ending : String,
      f.text = q.select.heading columns ++ Select.clauseText "WHERE" q.select.whereTokens ++ ending := by
  obtain ⟨g, compiled, passed⟩ := ok_of_bind passed
  obtain ⟨_, -, passed⟩ := ok_of_bind passed
  obtain rfl := Except.ok.inj passed
  obtain ⟨body, own, compiled⟩ := ok_of_bind compiled
  obtain ⟨branches, -, compiled⟩ := ok_of_bind compiled
  obtain ⟨tail, -, compiled⟩ := ok_of_bind compiled
  obtain rfl := Except.ok.inj compiled
  obtain ⟨columns, grouping, last, -, -, -, text⟩ := @Select.text_of_compileWith _ false _ own
  refine ⟨columns, q.select.ending grouping last ++ (Fragment.concat branches).text ++ tail, ?_⟩
  have select : q.statement.select = q.select := rfl
  simp [text, select, String.append_assoc]

namespace Deed

variable {τ α : Type} {s : Statement} {context : String} {next : Except Error α → Process (World τ)}
  {sent : List Request} {rest : Process (World τ)}

/-- Before the rows of a statement are there, nothing else is handed over. -/
theorem first_of_execute {connection : Value} {sql : String} {params : List Value}
    {f : List Row → Deed τ α} (silent : ∀ e, (next (.error e)).SendsOnly fun _ => False)
    (run : Process.Run ((execute connection sql params >>= f) next) sent rest) :
    ∀ r ∈ sent.head?, r.sql = sql ∧ r.params = params := by
  rintro r first
  cases run with
  | rest => cases first
  | step step later =>
    cases step with
    | get _ w =>
      cases found : w.runner connection with
      | error e =>
        simp only [found] at later
        exact absurd (((silent e).run later).1 r (List.mem_of_mem_head? first)) id
      | ok n =>
        simp only [found] at later
        cases later with
        | rest => cases first
        | step step later =>
          cases step with
          | ask =>
            cases first
            exact ⟨rfl, rfl⟩

/-- What such a step hands over first, if it hands over anything, is the statement that it asks for;
an error ends it in silence. -/
theorem Asks.first_of_run {x : Deed τ α} (h : Asks s context x)
    (silent : ∀ e, (next (.error e)).SendsOnly fun _ => False)
    (run : Process.Run (x next) sent rest) :
    ∀ r ∈ sent.head?, ∃ f, s.checked context = .ok f ∧ r.sql = f.text ∧ r.params = f.values := by
  -- Whatever becomes of the rows, the statement is checked and then handed over.
  have checked (connection : Value) {α : Type} {next : Except Error α → Process (World τ)}
      {context : String} {f : List Row → Deed τ α}
      (silent : ∀ e, (next (.error e)).SendsOnly fun _ => False)
      (run : Process.Run ((Act.ofExcept (s.checked context) >>= fun g =>
        execute connection g.text g.values >>= f) next) sent rest) :
      ∀ r ∈ sent.head?, ∃ f, s.checked context = .ok f ∧ r.sql = f.text ∧ r.params = f.values := by
    intro r first
    cases passed : s.checked context with
    | error e =>
      rw [passed] at run
      exact absurd (((silent e).run run).1 r (List.mem_of_mem_head? first)) id
    | ok g =>
      rw [passed] at run
      exact ⟨g, rfl, first_of_execute silent run r first⟩
  induction h with
  | rows q same =>
    subst same
    refine checked q.select.source.connection (f := pure) silent ?_
    rw [Query.rows] at run
    simpa only [bind_pure] using run
  | fetch load q column registry same =>
    subst same
    exact checked _ silent run
  | aggregate q function column same =>
    subst same
    exact checked _ silent run
  | andThen f _ ih => exact ih silent run

end Deed

namespace Query

variable {τ : Type}

/-- The query for the row with an identifier. -/
def identified (q : Query) (identifier : Value) : Query :=
  (Build.withTests q [Test.holding (q.select.from_ ++ ".id") identifier]).mapSelect
    fun s => { s with limit := .int 1 }

theorem find_eq (q : Query) (identifier : Value) :
    q.find (τ := τ) identifier =
      (Build.withTests q [Test.holding (q.select.from_ ++ ".id") identifier]).first := by
  have narrowed : Build.finish q (do
      Build.addCondition
        (← Build.comparison .and (.text s!"{q.select.from_}.id") (some identifier) none)) =
      .ok (Build.withTests q [Test.holding (q.select.from_ ++ ".id") identifier]) := by
    exact Build.finish_eq_ok (Build.bind_eq_ok (Build.comparison_eq_ok _ _ _) rfl)
  unfold find
  rw [narrowed]
  rfl

theorem asks_find (q : Query) (identifier : Value) :
    Deed.Asks (τ := τ) (q.identified identifier).statement "get" (q.find identifier) := by
  rw [find_eq]
  exact Deed.asks_first _

end Query

namespace Build

theorem ok_of_orderBy {column direction : Value} {q after : Query}
    (run : orderBy column direction q = .ok () after) :
    ∃ orders, after = { q with select := { q.select with orders := orders } } := by
  unfold orderBy at run
  split at run
  · dsimp only at run
    split at run
    · cases run
    · obtain ⟨_, _, named, run⟩ := ok_of_bind run
      unfold checkNames at named
      split at named
      · cases named
        cases run
        exact ⟨_, rfl⟩
      · cases named
  · cases run

/-- A query of the rows in which a column has its extreme value: the test that it equals the
subselect stands behind the root conditions. -/
theorem ok_of_ofMany {column aggregate : Value} {q after : Query}
    (run : ofMany column aggregate q = .ok () after) : ∃ extremum body,
      aggregate.asText?.map Text.lowercase = some extremum.word ∧
      (q.select.extremeOf extremum column).body = .ok body ∧
      q.select.Appended after.select
        (.raw s!"{column.shown} = ({body.text})" body.values "where_raw") := by
  rw [ofMany_eq] at run
  obtain ⟨extremum, _, read, run⟩ := ok_of_bind run
  obtain ⟨asked, rfl⟩ := ok_of_ofExcept read
  obtain ⟨_, _, got, run⟩ := ok_of_bind run
  cases got
  obtain ⟨body, _, wrote, run⟩ := ok_of_bind run
  obtain ⟨written, rfl⟩ := ok_of_ofExcept wrote
  obtain ⟨_, _, added, run⟩ := ok_of_bind run
  obtain ⟨clause, _, checked, added⟩ := ok_of_bind added
  obtain ⟨made, rfl⟩ := ok_of_ofExcept checked
  obtain ⟨text, same, rfl⟩ := Sql.Clause.raw_eq_ok made
  cases added
  obtain ⟨_, _, ordered, run⟩ := ok_of_bind run
  obtain ⟨orders, rfl⟩ := ok_of_orderBy ordered
  cases run
  obtain rfl : _ = text := Value.text.inj same
  have values : (Fragment.plain s!"{column.shown} = (" ++ body ++ .plain ")").values =
    body.values := by simp
  rw [values]
  exact ⟨extremum, body, word_of_extremumOf asked, written, ⟨rfl, rfl, fun _ => rfl⟩⟩

end Build

/-- Queries that are singled out, whatever their conditions and their scope. What the search for an
identifier hands over first, if anything, is the statement of the query for the row with it. The
WHERE clause of that query, like that of a query for an extreme value, is read under any valuation of
the tests as restricting the last alternative of the conditions and no other; so it asks for no row
that was out before, and every row is asked to pass the test as long as nothing is joined by OR. -/
theorem last_alternative_is_restricted (q : Query) :
    (∀ identifier : Value, identifier.isNull = false →
      q.select.Restricts (q.identified identifier).select
        (.compare (q.select.from_ ++ ".id") "=" identifier) ∧
      ∀ (τ : Type) (sent : List Request) (rest : Process (World τ)),
        Process.Run (q.find identifier .done) sent rest → ∀ r ∈ sent.head?, ∃ f,
          (q.identified identifier).statement.checked "get" = .ok f ∧
          r.sql = f.text ∧ r.params = f.values ∧
          ∃ columns ending : String, f.text =
            (q.identified identifier).select.heading columns ++
            Select.clauseText "WHERE" (q.identified identifier).select.whereTokens ++ ending) ∧
    ∀ column aggregate after, Build.ofMany column aggregate q = .ok () after →
      ∃ extremum body, aggregate.asText?.map Text.lowercase = some extremum.word ∧
        (q.select.extremeOf extremum column).body = .ok body ∧
        q.select.Restricts after.select
          (.raw s!"{column.shown} = ({body.text})" body.values "where_raw") := by
  refine ⟨fun identifier given => ⟨?_, fun τ sent rest run r first => ?_⟩,
    fun column aggregate after run => ?_⟩
  · have test : Test.holding (q.select.from_ ++ ".id") identifier =
        .compare (q.select.from_ ++ ".id") "=" identifier := by
      rw [Test.holding, given]
      rfl
    rw [← test]
    exact Select.Appended.restricts ⟨rfl, rfl, fun _ => rfl⟩
  · obtain ⟨f, passed, sql, params⟩ := @Deed.Asks.first_of_run _ _ _ _ .done _ _ _
      (q.asks_find identifier) (fun _ => trivial) run r first
    exact ⟨f, passed, sql, params, Query.text_of_checked passed⟩
  · obtain ⟨extremum, body, asked, written, appended⟩ := Build.ok_of_ofMany run
    exact ⟨extremum, body, asked, written, appended.restricts⟩

/-- Posts with `a` or with `b`. -/
def eitherPosts : Query :=
  Loader.postsWith [.leaf .and (.compare "a" "=" (.int 1)), .leaf .or (.compare "b" "=" (.int 2))]

/-- The statement that looks for the post numbered five among them. -/
def eitherPost : Fragment where
  text := "SELECT * FROM posts WHERE a = ? OR b = ? AND posts.id = ? LIMIT 1"
  values := [.int 1, .int 2, .int 5]

/-- The test that a post is the last one of them. -/
def lastEither : Test :=
  .raw "id = (SELECT MAX(id) AS aggregate_value FROM posts WHERE a = ? OR b = ?)" [.int 1, .int 2]
    "where_raw"

/-- The query for the last post of them. -/
def lastEitherPost : Query :=
  eitherPosts.mapSelect fun s => { s with
    conditions := s.conditions ++ [.leaf .and lastEither]
    orders := [.by "id" true]
    limit := .int 1 }

/-- The post numbered five is looked for by a statement that any post with `a` answers, and the last
one by a query that all of them answer. -/
theorem any_post_is_found :
    (∃ rest, Process.Run (eitherPosts.find (τ := Unit) (.int 5) .done)
      [⟨0, eitherPost.text, eitherPost.values⟩] rest) ∧
    (∃ columns ending : String, eitherPost.text =
      (eitherPosts.identified (.int 5)).select.heading columns ++ Select.clauseText "WHERE"
        (eitherPosts.identified (.int 5)).select.whereTokens ++ ending) ∧
    (∀ v : Test → Bool,
      Condition.reading v (eitherPosts.identified (.int 5)).select.whereTokens =
        some (v (.compare "a" "=" (.int 1)) ||
          v (.compare "b" "=" (.int 2)) && v (.compare "posts.id" "=" (.int 5)))) ∧
    Build.ofMany (.text "id") (.text "max") eitherPosts = .ok () lastEitherPost ∧
    ∀ v : Test → Bool, Condition.reading v lastEitherPost.select.whereTokens =
      some (v (.compare "a" "=" (.int 1)) || v (.compare "b" "=" (.int 2)) && v lastEither) := by
  have level (v : Test → Bool) : Condition.lastLevel v eitherPosts.select.conditions =
      ⟨v (.compare "a" "=" (.int 1)), v (.compare "b" "=" (.int 2))⟩ := by
    simp [eitherPosts, Loader.postsWith, Condition.lastLevel, Condition.levelAfter, Condition.holds?,
      Condition.junction, Sql.Level.start, Sql.Level.operand, Sql.Level.joined, Sql.Level.split]
  have scope (v : Test → Bool) : Condition.allHold v
      (eitherPosts.select.deletionScope eitherPosts.select.from_) = true := rfl
  obtain ⟨identified, extreme⟩ := last_alternative_is_restricted eitherPosts
  obtain ⟨restricts, sends⟩ := identified (.int 5) rfl
  have passed : (eitherPosts.identified (.int 5)).statement.checked "get" = .ok eitherPost := by
    refine Statement.checked_eq_ok_iff.mpr ⟨rfl, Guard.checkStatement_ofList _ ?_ ?_⟩
    · decide +kernel
    · decide +kernel
  have run : ∃ rest, Process.Run (eitherPosts.find (τ := Unit) (.int 5) .done)
      [⟨0, eitherPost.text, eitherPost.values⟩] rest := by
    rw [Query.find_eq, Query.first, ← Query.identified, Query.get, Query.fetch, passed]
    exact ⟨_, .step (.get _ Deed.postWorld) (.step (.ask _ _ (.ok [])) (.rest _))⟩
  have asked : Build.ofMany (.text "id") (.text "max") eitherPosts = .ok () lastEitherPost := rfl
  refine ⟨run, ?_, fun v => ?_, asked, fun v => ?_⟩
  · obtain ⟨rest, run⟩ := run
    obtain ⟨f, passed', -, -, text⟩ := sends Unit _ rest run _ rfl
    obtain rfl := Except.ok.inj (passed'.symm.trans passed)
    exact text
  · have column : eitherPosts.select.from_ ++ ".id" = "posts.id" := rfl
    rw [restricts.reading v, level, scope, column, Bool.and_true]
  · obtain ⟨extremum, body, word, written, restricts⟩ := extreme _ _ _ asked
    obtain rfl : extremum = .max := by
      cases extremum with
      | max => rfl
      | min => exact absurd word (by decide)
    have own : (eitherPosts.select.extremeOf .max (.text "id")).body = .ok
        ⟨"SELECT MAX(id) AS aggregate_value FROM posts WHERE a = ? OR b = ?", [.int 1, .int 2]⟩ := rfl
    obtain rfl := Except.ok.inj (written.symm.trans own)
    rw [restricts.reading v, level, scope, Bool.and_true]
    rfl

end Relata
