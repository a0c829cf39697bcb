import Relata.Proofs.Loading.Agreeing
import Relata.Proofs.Loading.Paged
import Relata.Proofs.Query.United
import Relata.Proofs.Sql.Counted
import Relata.Session.Invoke

/-!
Whether a query finds anything. It is asked by counting, and only the rows of the query itself are
counted: what is united with it is left out, and so is what it selects. Main statement: there is
something exactly if the query keeps a row of its own, while running it finds something also where a query
united with it does, or where it selects a value of all rows together.
-/

namespace Relata

open Act (Runs Carries)
open Session (Stage runQuery)
open Sql (Candidate Contents Database)

namespace Query

variable {τ : Type} {rely : World τ → World τ → Prop} {q : Query} {w w' : World τ} {db : Database}
  {f : Sql.Fragment} {n : Nat}

/-- Rows are counted by the statement that counts them. -/
theorem statement_aggregated (q : Query) :
    (q.aggregated "COUNT" (.text "*")).statement = q.statement.counted := rfl

theorem runs_execute (runner : w.runner q.select.source.connection = .ok n) (others : rely w w')
    (answer : Except Error (List Row)) :
    Runs rely (Deed.execute q.select.source.connection f.text f.values) w
      [(⟨n, f.text, f.values⟩, answer)] answer w' := by
  have found : Runs rely (Act.getsExcept fun w => w.runner q.select.source.connection) w [] (.ok n) w :=
    Runs.getsExcept_ok (f := fun s : World τ => s.runner q.select.source.connection) runner
  exact found.bind_silent (.ask _ others answer)

/-- A number of rows is what counting comes to. -/
theorem runs_count {count : Nat} (passed : q.statement.counted.checked "aggregate" = .ok f)
    (runner : w.runner q.select.source.connection = .ok n) (others : rely w w') :
    Runs rely (q.count (.text "*")) w
      [(⟨n, f.text, f.values⟩, .ok [[("aggregate", .int count)]])] (.ok count) w' := by
  have aggregates : Runs rely (q.aggregate (.text "COUNT") (.text "*")) w
      [(⟨n, f.text, f.values⟩, .ok [[("aggregate", .int count)]])] (.ok (.int count)) w' := by
    unfold aggregate
    dsimp only
    rw [statement_aggregated, passed]
    have asks := runs_execute (f := f) runner others
      (.ok [[("aggregate", Value.int (count : Int))]])
    exact (Runs.ofExcept (.ok f) w).bind_silent (asks.bind (.ofExcept (.ok (Value.int count)) w'))
  refine aggregates.bind_quiet ?_
  cases count with
  | zero => exact .ofExcept (.ok 0) w'
  | succ more => exact .ofExcept (.ok ((more + 1 : Nat) : Int)) w'

/-- There is something if a row is counted. -/
theorem runs_exists (whole : q.select.grouping = []) (all : q.select.having = [])
    (passed : q.statement.counted.checked "aggregate" = .ok f)
    (runner : w.runner q.select.source.connection = .ok n) (others : rely w w') {answer : List Row}
    (answered : db.Answers q.statement.counted answer) :
    Runs rely q.exists_ w [(⟨n, f.text, f.values⟩, .ok answer)]
      (.ok !(q.select.kept db.contents).isEmpty) w' := by
  obtain rfl := (Database.answers_counted_iff whole all).mp answered
  have found : decide ((0 : Int) < (q.select.kept db.contents).length) =
      !(q.select.kept db.contents).isEmpty := by
    cases q.select.kept db.contents <;> simp
  rw [← found]
  exact (runs_count passed runner others).bind_pure (g := fun count : Int => decide (0 < count)) fun _ => rfl

/-- What a query brings: an object for each row, unless one cannot be made or the relations that the query
asks for cannot be loaded. -/
theorem runs_get {registry : Value} {sent : Dialogue} {page : Fetched} {t : World τ}
    (passed : q.statement.checked "get" = .ok f) (runner : w.runner q.select.source.connection = .ok n)
    (runs : Runs Eq (q.get registry) w sent (.ok page) t) : ∃ answer later,
      sent = (⟨n, f.text, f.values⟩, .ok answer) :: later ∧ page.members.length = answer.length := by
  obtain ⟨made, asks, objects, -, -⟩ := runs_fetch_allowed World.latitude_grows
    (.of_made fun _ _ _ => Loader.made_load _ _ _) runs.carries
  obtain ⟨_, later, rfl, -, f', n', answer, passed', runner', rfl, keyed⟩ := asks
  obtain rfl := Except.ok.inj (passed.symm.trans passed')
  obtain rfl := Except.ok.inj (runner.symm.trans runner')
  exact ⟨answer, later, rfl, (keyed.length_eq.trans objects.length_eq).symm⟩

/-- A query comes to its objects if they can be made and no relations are to be loaded on them. -/
theorem get_of_hydrated {made : Row → Entity} {answer : List Row} (registry : Value)
    (passed : q.statement.checked "get" = .ok f) (runner : w.runner q.select.source.connection = .ok n)
    (hydrated : ∀ row ∈ answer, q.entity w.toLookup row = .ok (made row))
    (flat : q.loads.paths = [] ∨ answer = []) :
    ∃ page t, Runs Eq (q.get registry) w [(⟨n, f.text, f.values⟩, .ok answer)] (.ok page) t ∧
      page.Holds t made answer := by
  obtain ⟨members, u, makes, grows, holds⟩ := runs_hydrates hydrated
  have bare : (members.map fun o => (Value.null, o)).map (·.2) = members := by simp
  have unloaded : (!q.loads.paths.isEmpty && !members.isEmpty) = false := by
    obtain flat | rfl := flat
    · simp [flat]
    · cases holds
      simp
  have adopts : Runs Eq (Deed.adopt (τ := τ) members) u [] (.ok u.collections.size) (u.adopted members) :=
    .modifyGet _ u
  refine ⟨⟨u.collections.size, members, []⟩, u.adopted members, ?_, ?_, ?_⟩
  · unfold get fetch
    rw [passed]
    refine (Runs.ofExcept (.ok f) w).bind_silent
      ((runs_execute runner rfl (.ok answer)).bind_quiet (makes.bind_quiet ?_))
    dsimp only
    rw [bare, unloaded]
    exact adopts.bind_silent (.ofExcept (.ok (⟨u.collections.size, members, []⟩ : Fetched)) _)
  · simp [World.adopted]
  · exact holds.imp fun _ _ own => own.later (u.adds_adopted members).grows

theorem runs_runQuery (whole : q.select.grouping = []) (all : q.select.having = [])
    {w w' : World Stage} {rely : World Stage → World Stage → Prop}
    (passed : q.statement.counted.checked "aggregate" = .ok f)
    (runner : w.runner q.select.source.connection = .ok n) (others : rely w w') {answer : List Row}
    (answered : db.Answers q.statement.counted answer) (negated : Bool) :
    Runs rely (runQuery q (.exists_ negated) []) w [(⟨n, f.text, f.values⟩, .ok answer)]
      (.ok (.bool ((q.select.kept db.contents).isEmpty == negated))) w' := by
  have same (empty : Bool) : ((!empty) != negated) = (empty == negated) := by
    cases empty <;> cases negated <;> rfl
  rw [← same]
  exact (runs_exists whole all passed runner others answered).bind_pure
    (g := fun found => Value.bool (found != negated)) fun _ => rfl

/-- A query that sets no limits and does not group its rows, and that may be sent. There is something
exactly if it keeps a row of its own, and counting, which may be sent too, always tells; the opposite
question has the opposite answer. Running the query comes to some object exactly if it keeps a row of its
own, or selects a value of all rows together, or if one of its branches finds anything. -/
theorem exists_iff_own_rows {rely : World Stage → World Stage → Prop} {w : World Stage} (db : Database)
    (free : q.select.limit = .null) (free' : q.select.offset = .null) (whole : q.select.grouping = [])
    (all : q.select.having = []) (passed : q.statement.checked "get" = .ok f)
    (runner : w.runner q.select.source.connection = .ok n) :
    (∃ g, q.statement.counted.checked "aggregate" = .ok g ∧
      ∀ answer w', rely w w' → db.Answers q.statement.counted answer →
        Runs rely (runQuery q (.exists_ false) []) w [(⟨n, g.text, g.values⟩, .ok answer)]
          (.ok (.bool !(q.select.kept db.contents).isEmpty)) w' ∧
        Runs rely (runQuery q (.exists_ true) []) w [(⟨n, g.text, g.values⟩, .ok answer)]
          (.ok (.bool (q.select.kept db.contents).isEmpty)) w') ∧
    (∀ registry sent page t, Runs Eq (q.get registry) w sent (.ok page) t → ∃ answer later,
      sent = (⟨n, f.text, f.values⟩, .ok answer) :: later ∧
      (db.Answers q.statement answer → (page.members ≠ [] ↔ q.select.kept db.contents ≠ [] ∨
        q.select.columns.any db.folds = true ∨ ∃ b ∈ q.branches, db.rows b.2.select ≠ []))) ∧
    ∀ registry answer (made : Row → Entity), (∀ row ∈ answer, q.entity w.toLookup row = .ok (made row)) →
      (q.loads.paths = [] ∨ answer = []) →
      ∃ page t, Runs Eq (q.get registry) w [(⟨n, f.text, f.values⟩, .ok answer)] (.ok page) t ∧
        page.Holds t made answer := by
  refine ⟨?_, fun registry sent page t runs => ?_, fun registry answer made hydrated flat =>
    get_of_hydrated registry passed runner hydrated flat⟩
  · obtain ⟨g, passed'⟩ := Sql.Statement.checked_counted passed "aggregate"
    refine ⟨g, passed', fun answer w' others answered => ⟨?_, ?_⟩⟩
    · simpa using runs_runQuery whole all passed' runner others answered false
    · simpa using runs_runQuery whole all passed' runner others answered true
  · obtain ⟨answer, later, rfl, same⟩ := runs_get passed runner runs
    refine ⟨answer, later, rfl, fun answered => ?_⟩
    have found := answered.ne_nil_iff free free' whole all
    have branches : (∃ b ∈ q.statement.branches, db.rows b.select ≠ []) ↔
        ∃ b ∈ q.branches, db.rows b.2.select ≠ [] := by
      refine ⟨fun ⟨_, there, own⟩ => ?_, fun ⟨b, there, own⟩ => ⟨_, List.mem_map_of_mem there, own⟩⟩
      obtain ⟨b, member, rfl⟩ := List.mem_map.mp there
      exact ⟨b, member, own⟩
    rw [branches] at found
    refine Iff.trans ?_ found
    rw [← List.length_pos_iff, ← List.length_pos_iff, same]

/-- The posts of an author. -/
def postsOf (author : Int) : Query :=
  newPosts.mapSelect fun s => { s with conditions := [.leaf .and (.compare "author" "=" (.int author))] }

/-- Only the second author has written a post. -/
def authorRow : Row := [("id", .int 5), ("author", .int 2)]

/-- A database that also knows the greatest number of a post as a value of all rows. -/
def authorDatabase : Database :=
  .showing (fun _ _ => [candidate authorRow]) (fun column => column == "MAX(id) AS latest")
    fun row => [("id", (row.value "id").getD .null)]

/-- Only the posts are known, on one connection. -/
def authorWorld : World Stage where
  toEnv := plainEnv
  tagMaps := #[]
  connections := [("default", 0)]
  warnings := []
  rest := .empty

def unitedPosts : Query := (postsOf 1).unite false (postsOf 2)

/-- The greatest number of a post of the first author. -/
def latestPost : Query := (postsOf 1).mapSelect fun s => { s with columns := [.text "MAX(id) AS latest"] }

theorem checked_unitedPosts : unitedPosts.statement.checked "get" =
    .ok ⟨"SELECT * FROM posts WHERE author = ? UNION SELECT * FROM posts WHERE author = ?",
      [.int 1, .int 2]⟩ :=
  Sql.Statement.checked_eq_ok_iff.mpr ⟨by rfl, Guard.checkStatement_ofList _ (by decide +kernel)
    (by decide +kernel)⟩

theorem checked_latestPost : latestPost.statement.checked "get" =
    .ok ⟨"SELECT MAX(id) AS latest FROM posts WHERE author = ?", [.int 1]⟩ :=
  Sql.Statement.checked_eq_ok_iff.mpr ⟨by rfl, Guard.checkStatement_ofList _ (by decide +kernel)
    (by decide +kernel)⟩

theorem answers_unitedPosts : authorDatabase.Answers unitedPosts.statement [[("id", .int 5)]] where
  alone _ _ none_ := by cases none_
  united _ _ := by
    refine ⟨fun absurd => (by cases absurd), fun none_ => ?_⟩
    have other := none_ (postsOf 2).select (by simp [Sql.Statement.selects, unitedPosts, unite, statement])
    cases other

theorem answers_latestPost : authorDatabase.Answers latestPost.statement [[]] where
  alone _ _ _ := .refl _
  united _ _ := by
    refine ⟨fun absurd => (by cases absurd), fun none_ => ?_⟩
    have own := none_ latestPost.select (.head _)
    cases own

/-- Asked for, the posts of the first author with those of the second one are found; asked whether there
are none, they are said not to be there. -/
theorem second_author_is_not_counted :
    (∃ g, unitedPosts.statement.counted.checked "aggregate" = .ok g ∧
      Runs Eq (runQuery unitedPosts (.exists_ true) []) authorWorld
        [(⟨0, g.text, g.values⟩, .ok [[("aggregate", .int 0)]])] (.ok (.bool true)) authorWorld) ∧
    ∃ f page t, unitedPosts.statement.checked "get" = .ok f ∧
      Runs Eq (unitedPosts.get .null) authorWorld [(⟨0, f.text, f.values⟩, .ok [[("id", .int 5)]])]
        (.ok page) t ∧ page.members ≠ [] ∧ ∃ b ∈ unitedPosts.branches, authorDatabase.rows b.2.select ≠ [] := by
  obtain ⟨⟨g, passed, tells⟩, brings, comes⟩ := @exists_iff_own_rows unitedPosts _ 0 Eq authorWorld
    authorDatabase rfl rfl rfl rfl checked_unitedPosts rfl
  have counted : authorDatabase.Answers unitedPosts.statement.counted [[("aggregate", .int 0)]] :=
    (Database.answers_counted_iff rfl rfl).mpr rfl
  obtain ⟨page, t, runs, -⟩ := comes .null [[("id", .int 5)]] (fun _ => _)
    (List.forall_mem_singleton.mpr rfl) (.inl rfl)
  obtain ⟨answer, later, same, found⟩ := brings _ _ _ _ runs
  obtain ⟨rfl, rfl⟩ : answer = [[("id", .int 5)]] ∧ later = [] := by
    simpa [eq_comm] using same
  have other : ∃ b ∈ unitedPosts.branches, authorDatabase.rows b.2.select ≠ [] :=
    ⟨(false, postsOf 2), .head _, List.cons_ne_nil _ _⟩
  exact ⟨⟨g, passed, (tells _ _ rfl counted).2⟩, _, page, t, checked_unitedPosts, runs,
    (found answers_unitedPosts).mpr (.inr (.inr other)), other⟩

/-- Running a query finds something, and there is nothing. -/
structure Overlooked (db : Database) (q : Query) (w : World Stage) : Prop where
  unlimited : q.select.limit = .null ∧ q.select.offset = .null
  ungrouped : q.select.grouping = [] ∧ q.select.having = []
  absent : ∃ n g answer, q.statement.counted.checked "aggregate" = .ok g ∧
    db.Answers q.statement.counted answer ∧
    Runs Eq (runQuery q (.exists_ false) []) w [(⟨n, g.text, g.values⟩, .ok answer)] (.ok (.bool false)) w
  found : ∃ n f answer page t, q.statement.checked "get" = .ok f ∧ db.Answers q.statement answer ∧
    Runs Eq (q.get .null) w [(⟨n, f.text, f.values⟩, .ok answer)] (.ok page) t ∧ page.members ≠ []

/-- Where a row comes that is no row of the query itself, it is overlooked. -/
theorem overlooked_of_answers {q : Query} {f : Sql.Fragment} {answer : List Row} (made : Row → Entity)
    (unlimited : q.select.limit = .null ∧ q.select.offset = .null)
    (ungrouped : q.select.grouping = [] ∧ q.select.having = []) (flat : q.loads.paths = [])
    (passed : q.statement.checked "get" = .ok f)
    (runner : authorWorld.runner q.select.source.connection = .ok 0)
    (none_ : q.select.kept authorDatabase.contents = [])
    (answers : authorDatabase.Answers q.statement answer) (some_ : answer ≠ [])
    (hydrated : ∀ row ∈ answer, q.entity authorWorld.toLookup row = .ok (made row)) :
    Overlooked authorDatabase q authorWorld where
  unlimited := unlimited
  ungrouped := ungrouped
  absent := by
    obtain ⟨g, passed'⟩ := Sql.Statement.checked_counted passed "aggregate"
    have counted : authorDatabase.Answers q.statement.counted
        [[("aggregate", .int (q.select.kept authorDatabase.contents).length)]] :=
      (Database.answers_counted_iff ungrouped.1 ungrouped.2).mpr rfl
    have runs : Runs Eq (runQuery q (.exists_ false) []) authorWorld _ _ authorWorld :=
      runs_runQuery ungrouped.1 ungrouped.2 passed' runner rfl counted false
    rw [none_] at counted runs
    exact ⟨0, g, _, passed', counted, runs⟩
  found := by
    obtain ⟨page, t, runs, holds⟩ := get_of_hydrated .null passed runner hydrated (.inl flat)
    refine ⟨0, f, answer, page, t, passed, answers, runs, fun empty => some_ ?_⟩
    have same := holds.objects.length_eq
    rw [empty] at same
    exact List.length_eq_zero_iff.mp same

/-- What another author has written is found and does not exist; so is the greatest number of no post. -/
theorem united_posts_do_not_exist :
    Overlooked authorDatabase unitedPosts authorWorld ∧
      Overlooked authorDatabase latestPost authorWorld := by
  constructor
  · exact overlooked_of_answers (fun _ => _) ⟨rfl, rfl⟩ ⟨rfl, rfl⟩ rfl checked_unitedPosts rfl rfl
      answers_unitedPosts
      (List.cons_ne_nil _ _) (List.forall_mem_singleton.mpr rfl)
  · exact overlooked_of_answers (fun _ => _) ⟨rfl, rfl⟩ ⟨rfl, rfl⟩ rfl checked_latestPost rfl rfl
      answers_latestPost
      (List.cons_ne_nil _ _) (List.forall_mem_singleton.mpr rfl)

end Query

end Relata
