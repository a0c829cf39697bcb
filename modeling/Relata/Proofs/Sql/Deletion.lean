import Relata.Proofs.Sql.Where

/-!
Soft deletion. A query on a soft-deleting model reads the rows that its conditions ask for, less the
deleted ones, or only those, or all of them. Main statement: the WHERE clause, as SQL reads it, says
exactly this of the table that is read. The conditions are set in parentheses only if one past the
first is joined by OR; without one, the scope joins the single alternative that they form.
-/

namespace Relata.Sql

namespace Condition

variable {α : Type} (v : α → Bool)

theorem levelAfter_append (level : Level) (xs ys : List (Condition α)) :
    levelAfter v level (xs ++ ys) = levelAfter v (levelAfter v level xs) ys := by
  induction xs generalizing level with
  | nil => rfl
  | cons c rest ih =>
    simp only [List.cons_append, levelAfter]
    cases c.holds? v with
    | none => exact ih level
    | some b => exact ih _

/-- Siblings without an alternative all belong to the one that is growing. -/
theorem earlier_levelAfter (level : Level) {cs : List (Condition α)}
    (none_or : ∀ c ∈ cs, c.junction ≠ .or) :
    (levelAfter v level cs).earlier = level.earlier := by
  induction cs generalizing level with
  | nil => rfl
  | cons c rest ih =>
    have later : ∀ d ∈ rest, d.junction ≠ .or := fun d hd => none_or d (by simp [hd])
    have own : c.junction = .and := by
      cases hj : c.junction with
      | and => rfl
      | or => exact absurd hj (none_or c (by simp))
    rw [levelAfter]
    cases c.holds? v with
    | none => exact ih level later
    | some b => rw [ih _ later, own]; rfl

/-- A test joined by AND to siblings without an alternative restricts all of them. -/
theorem allHold_append_leaf {cs : List (Condition α)} (none_or : ∀ c ∈ cs.drop 1, c.junction ≠ .or)
    (t : α) : allHold v (cs ++ [.leaf .and t]) = (allHold v cs && v t) := by
  unfold allHold
  induction cs with
  | nil => simp [meaning, holds?]
  | cons c rest ih =>
    have later : ∀ d ∈ rest, d.junction ≠ .or := by simpa using none_or
    rw [List.cons_append, meaning_none_cons, meaning_none_cons]
    cases c.holds? v with
    | none => exact ih fun d hd => later d (List.mem_of_mem_drop hd)
    | some b =>
      have earlier : (levelAfter v (Level.start.operand b) rest).earlier = false :=
        earlier_levelAfter v _ later
      simp only [levelAfter_append, Option.getD_some]
      generalize levelAfter v (Level.start.operand b) rest = last at earlier ⊢
      simp [levelAfter, holds?, junction, Level.joined, Level.operand, Level.truth, earlier]

/-- A test joined by AND to siblings in parentheses restricts all of them. -/
theorem allHold_group_leaf (cs : List (Condition α)) (t : α) :
    allHold v [.group .and false cs, .leaf .and t] = (allHold v cs && v t) := by
  unfold allHold
  rw [meaning_none_cons]
  cases h : meaning v none cs with
  | none => simp [holds?, h, meaning]
  | some b =>
    simp [holds?, h, levelAfter, junction, Level.joined, Level.operand, Level.truth, Level.start]

end Condition

namespace Select

theorem hasAlternative_eq_false_iff (conditions : List Clause) :
    hasAlternative conditions = false ↔ ∀ c ∈ conditions.drop 1, c.junction ≠ .or := by
  simp [hasAlternative]

/-- Whatever the root conditions are, a scope asks for itself besides. -/
theorem allHold_whereList_of_scope (v : Test → Bool) (q : Select) (table : String) {t : Test}
    (scope : q.deletionScope table = [.leaf .and t]) :
    Condition.allHold v (q.whereList table) = (Condition.allHold v q.conditions && v t) := by
  unfold whereList
  cases h : hasAlternative q.conditions with
  | true => simpa [scope, h] using Condition.allHold_group_leaf v q.conditions t
  | false =>
    have none_or := (hasAlternative_eq_false_iff q.conditions).mp h
    simpa [scope, h] using Condition.allHold_append_leaf v none_or t

/-- The truth of the root conditions with the deletion scope of a soft-deleting model. -/
theorem allHold_whereList (v : Test → Bool) (q : Select) (table : String)
    (soft : q.source.softDeletes = true) :
    Condition.allHold v (q.whereList table) = (Condition.allHold v q.conditions &&
      match q.trashed with
      | .hidden => v (.null false (table ++ ".deleted_at"))
      | .only => v (.null true (table ++ ".deleted_at"))
      | .included => true) := by
  cases h : q.trashed with
  | hidden => exact allHold_whereList_of_scope v q table (by simp [deletionScope, soft, h])
  | only => exact allHold_whereList_of_scope v q table (by simp [deletionScope, soft, h])
  | included =>
    have scope : q.deletionScope table = [] := by simp [deletionScope, soft, h]
    simp [whereList, scope]

/-- Deleted rows are kept apart from the others. The select, with its ordering and limits or
without them, is its heading, which names the table, its WHERE clause and its ending; and under any
valuation of the tests the clause is read as what the root conditions say together with the deletion
scope on that table. -/
theorem where_isolates_deleted_rows {q : Select} {whole : Bool} {f : Fragment}
    (soft : q.source.softDeletes = true) (compiled : q.compileWith whole = .ok f) :
    (∃ columns grouping tail : String,
      listed q.columns = .ok columns ∧ listed q.grouping = .ok grouping ∧
      (if whole then q.tail else .ok "") = .ok tail ∧
      f.text = q.heading columns ++ clauseText "WHERE" q.whereTokens ++ q.ending grouping tail) ∧
    ∀ v : Test → Bool, Condition.reading v q.whereTokens =
      some (Condition.allHold v q.conditions && match q.trashed with
        | .hidden => v (.null false (q.from_ ++ ".deleted_at"))
        | .only => v (.null true (q.from_ ++ ".deleted_at"))
        | .included => true) := by
  refine ⟨text_of_compileWith compiled, fun v => ?_⟩
  rw [whereTokens, Condition.reading_row, allHold_whereList v q q.from_ soft]

/-- An alternative after an empty negated group, on a table given in place of that of the model. -/
def archivedPosts : Select :=
  { Select.all ⟨0, "Post", "posts", .text "default", true⟩ (.text "archive") with
    conditions := [.leaf .and (.compare "a" "=" (.int 1)), .group .or true [.group .or false []],
      .leaf .or (.null false "b")] }

/-- What is written for `archivedPosts`. -/
def archivedPostsFragment : Fragment where
  text := "SELECT * FROM archive WHERE (a = ? OR b IS NULL) AND archive.deleted_at IS NULL"
  values := [.int 1]

theorem where_isolates_deleted_posts :
    archivedPosts.source.softDeletes = true ∧
    archivedPosts.compileWith true = .ok archivedPostsFragment ∧
    ∀ v : Test → Bool, Condition.reading v archivedPosts.whereTokens =
      some ((v (.compare "a" "=" (.int 1)) || v (.null false "b")) &&
        v (.null false "archive.deleted_at")) := by
  have table : archivedPosts.from_ = "archive" := rfl
  have body : archivedPosts.bodyOf "*" "" = archivedPostsFragment := by
    rw [bodyOf, table]
    simp [archivedPosts, archivedPostsFragment, all, clause, whereList, deletionScope,
      hasAlternative, Clause.compile, Condition.row, Condition.rowFrom, Condition.tokens,
      Condition.junction, Token.fragment, Test.fragment, Junction.word, Fragment.concat,
      Fragment.empty, Fragment.plain, Fragment.mk_append]
  have compiled : archivedPosts.compileWith true = .ok archivedPostsFragment := by
    have tail : archivedPosts.tail = .ok "" := by cbv
    have columns : listed archivedPosts.columns = .ok "*" := by cbv
    have grouping : listed archivedPosts.grouping = .ok "" := by cbv
    simp [compileWith, compile, Select.body, tail, columns, grouping, body, archivedPostsFragment,
      bind, Except.bind, pure, Except.pure, Fragment.plain, Fragment.mk_append]
  refine ⟨rfl, compiled, fun v => ?_⟩
  rw [(where_isolates_deleted_rows rfl compiled).2 v, table]
  simp [archivedPosts, Condition.allHold, Condition.meaning, Condition.holds?, Condition.junction,
    all]

end Select

end Relata.Sql
