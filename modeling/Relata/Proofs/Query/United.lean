import Mathlib.Data.List.Forall2
import Relata.Proofs.Query.Built

/-!
What a statement takes of the queries united with it. A query may be united with others that are
united with others in turn; the statement writes one select for the query and one for each of its
own branches, and goes no deeper: of a branch it takes the select alone.
-/

namespace Relata

open Sql (Fragment Select Statement)

namespace Query

mutual

/-- The selects of a query and of all that is united with it at any depth, from left to right. -/
def selects : Query → List Select
  | ⟨select, branches, _⟩ => select :: unitedSelects branches

/-- The selects of branches and of all that is united with them. -/
def unitedSelects : List (Bool × Query) → List Select
  | [] => []
  | (_, q) :: rest => q.selects ++ unitedSelects rest

end

theorem selects_eq (q : Query) : q.selects = q.select :: unitedSelects q.branches := by
  cases q
  rw [selects]

theorem unitedSelects_append (first rest : List (Bool × Query)) :
    unitedSelects (first ++ rest) = unitedSelects first ++ unitedSelects rest := by
  induction first with
  | nil => rfl
  | cons b first ih => rw [List.cons_append, unitedSelects, ih, unitedSelects, List.append_assoc]

/-- The selects of all that is united with the branches of a query. -/
def nested (q : Query) : List Select := q.branches.flatMap fun b => unitedSelects b.2.branches

/-- The query united with another one. -/
def unite (q : Query) (all : Bool) (other : Query) : Query :=
  { q with branches := q.branches ++ [(all, other)] }

theorem selects_unite (q : Query) (all : Bool) (other : Query) :
    (q.unite all other).selects = q.selects ++ other.selects := by
  simp [selects_eq, unite, unitedSelects_append, unitedSelects]

theorem written_selects (q : Query) :
    q.statement.selects = q.select :: q.branches.map fun b => b.2.select := by
  simp [statement, Statement.selects]

theorem written_unite (q : Query) (all : Bool) (other : Query) :
    (q.unite all other).statement.selects = q.statement.selects ++ [other.select] := by
  simp [written_selects, unite]

/-- The selects that are written stand among all of them in the same order. -/
theorem sublist_selects (q : Query) : q.statement.selects.Sublist q.selects := by
  rw [written_selects, selects_eq]
  refine .cons_cons _ ?_
  generalize q.branches = branches
  induction branches with
  | nil => exact .slnil
  | cons b rest ih =>
    rw [unitedSelects, selects_eq]
    exact .cons_cons _ (ih.trans (List.sublist_append_right _ _))

/-- The others are those of what is united with branches. -/
theorem perm_selects (q : Query) : q.selects.Perm (q.statement.selects ++ q.nested) := by
  rw [written_selects, selects_eq, nested]
  refine .cons _ ?_
  generalize q.branches = branches
  induction branches with
  | nil => exact .nil
  | cons b rest ih =>
    rw [unitedSelects, selects_eq, List.flatMap_cons, List.map_cons]
    have behind := (ih.append_left (unitedSelects b.2.branches)).trans
      (List.perm_append_comm_assoc _ _ _)
    exact behind.cons _

theorem nested_eq_nil_iff (q : Query) :
    q.nested = [] ↔ ∀ b ∈ q.branches, b.2.branches = [] := by
  have none (branches : List (Bool × Query)) : unitedSelects branches = [] ↔ branches = [] := by
    cases branches with
    | nil => simp [unitedSelects]
    | cons b rest => simp [unitedSelects, selects_eq]
  simp [nested, none]

/-- All selects are written exactly if no branch has branches of its own. -/
theorem written_eq_selects_iff (q : Query) :
    q.statement.selects = q.selects ↔ ∀ b ∈ q.branches, b.2.branches = [] := by
  rw [← nested_eq_nil_iff]
  have lengths := q.perm_selects.length_eq
  rw [List.length_append] at lengths
  constructor
  · intro same
    rw [same] at lengths
    exact List.length_eq_zero_iff.mp (by omega)
  · intro empty
    rw [empty, List.length_nil] at lengths
    exact q.sublist_selects.eq_of_length lengths.symm

/-- Selects as they are written behind others; `all` keeps the rows that are there already. -/
def joined (parts : List (Bool × Fragment)) : Fragment :=
  .concat (parts.map fun part =>
    .plain (if part.1 then " UNION ALL " else " UNION ") ++ part.2)

theorem values_joined (parts : List (Bool × Fragment)) :
    (joined parts).values = parts.flatMap fun part => part.2.values := by
  induction parts with
  | nil => rfl
  | cons part rest ih => simpa [joined] using ih

/-- The branches as they are written, each without its ordering and limits. -/
theorem joined_of_mapM {branches : List (Bool × Query)} {fs : List Fragment}
    (h : (branches.map fun b => (⟨b.1, b.2.select⟩ : Sql.Branch)).mapM Statement.branchFragment =
      .ok fs) :
    ∃ parts : List (Bool × Fragment), List.Forall₂ (fun b part => part.1 = b.1 ∧
      b.2.select.body = .ok part.2) branches parts ∧ .concat fs = joined parts := by
  induction branches generalizing fs with
  | nil =>
    cases h
    exact ⟨[], .nil, rfl⟩
  | cons b rest ih =>
    rw [List.map_cons, List.mapM_cons] at h
    obtain ⟨own, written, h⟩ := ok_of_bind h
    obtain ⟨others, hothers, h⟩ := ok_of_bind h
    cases h
    obtain ⟨parts, bodies, same⟩ := ih hothers
    unfold Statement.branchFragment at written
    cases body : b.2.select.body with
    | error e => simp [body, Except.map] at written
    | ok f =>
      rw [body] at written
      cases written
      exact ⟨(b.1, f) :: parts, .cons ⟨rfl, body⟩ bodies, by rw [Fragment.concat, same]; rfl⟩

end Query

namespace Build

variable {env : Env} {inner : Caller} {q after : Query}

/-- A union takes the other query as it is, with all that is united with it. -/
theorem ok_of_union {all : Bool} {other : Value} {answer : Answer}
    (h : perform env inner (.union all) [some other] q = .ok answer after) :
    ∃ branch, queryOf env inner other q = .ok branch q ∧ after = q.unite all branch := by
  obtain ⟨_, between, added, h⟩ := ok_of_bind h
  cases h
  obtain ⟨branch, start, found, changed⟩ := ok_of_bind added
  obtain ⟨result, steady⟩ : Steady (queryOf env inner other) := steady_queryOf
  rw [steady] at found ⊢
  obtain ⟨rfl, rfl⟩ := ok_of_ofExcept found
  cases changed
  exact ⟨branch, rfl, rfl⟩

end Build

namespace Query

/-- What is written of a query that others are united with, in any way and to any depth. A union
adds to the tree of the query the whole tree of the other one, and to its statement the other one's
own select. The statement is the select of the query, then that of each branch in turn without its
ordering and limits, and at last the ordering and limits of the query; its values are theirs in the
same order. So the selects below a branch are left out, and nothing is left out exactly if no branch
has branches of its own. -/
theorem writes_own_branches (env : Env) (inner : Caller) (q : Query) :
    (∀ all other answer after,
      Build.perform env inner (.union all) [some other] q = .ok answer after →
      ∃ branch, Build.queryOf env inner other q = .ok branch q ∧
        after.selects = q.selects ++ branch.selects ∧
        after.statement.selects = q.statement.selects ++ [branch.select]) ∧
    (∀ context f, q.statement.checked context = .ok f →
      ∃ own tail, ∃ parts : List (Bool × Fragment),
        q.select.body = .ok own ∧ q.select.tail = .ok tail ∧
        List.Forall₂ (fun b part => part.1 = b.1 ∧ b.2.select.body = .ok part.2)
          q.branches parts ∧
        f = own ++ joined parts ++ .plain tail ∧
        f.values = own.values ++ parts.flatMap fun part => part.2.values) ∧
    q.statement.selects.Sublist q.selects ∧
    q.selects.Perm (q.statement.selects ++ q.nested) ∧
    (q.statement.selects = q.selects ↔ ∀ b ∈ q.branches, b.2.branches = []) := by
  refine ⟨fun all other answer after h => ?_, fun context f h => ?_, q.sublist_selects,
    q.perm_selects, q.written_eq_selects_iff⟩
  · obtain ⟨branch, found, rfl⟩ := Build.ok_of_union h
    exact ⟨branch, found, q.selects_unite all branch, q.written_unite all branch⟩
  · obtain ⟨own, body, h⟩ := ok_of_bind (Statement.checked_eq_ok_iff.mp h).1
    obtain ⟨branches, written, h⟩ := ok_of_bind h
    obtain ⟨tail, ends, h⟩ := ok_of_bind h
    cases h
    obtain ⟨parts, bodies, same⟩ := joined_of_mapM written
    refine ⟨own, tail, parts, body, ends, bodies, by rw [same], ?_⟩
    simp [same, values_joined]

/-- Posts united with those of one author, which are united with those of another. -/
def authoredPosts : Query :=
  let by_ (author : Int) : Query :=
    { newPosts with
      select :=
        { newPosts.select with conditions := [.leaf .and (.compare "author" "=" (.int author))] } }
  newPosts.unite false ((by_ 1).unite true (by_ 2))

/-- The call that makes `authoredPosts` of all posts. -/
def authoredCall : Call :=
  let by_ (author : Int) (more : List Call) : Value :=
    .draft (.model 0) (.mk "where" [.text "author", .int author] [] :: more)
  .mk "union" [by_ 1 [.mk "union_all" [by_ 2 []] []]] []

/-- Three selects are asked for, and two are written. -/
theorem second_author_is_lost :
    plainEnv.call authoredCall newPosts = .ok .self authoredPosts ∧
    authoredPosts.statement.checked "statement" =
      .ok ⟨"SELECT * FROM posts UNION SELECT * FROM posts WHERE author = ?", [.int 1]⟩ ∧
    authoredPosts.selects.length = 3 ∧ authoredPosts.statement.selects.length = 2 ∧
    authoredPosts.statement.selects ≠ authoredPosts.selects ∧
    ∃ own tail, ∃ parts : List (Bool × Fragment),
      List.Forall₂ (fun b part => part.1 = b.1 ∧ b.2.select.body = .ok part.2)
        authoredPosts.branches parts ∧
      ⟨"SELECT * FROM posts UNION SELECT * FROM posts WHERE author = ?", [.int 1]⟩ =
        own ++ joined parts ++ .plain tail := by
  have written : authoredPosts.statement.checked "statement" =
      .ok ⟨"SELECT * FROM posts UNION SELECT * FROM posts WHERE author = ?", [.int 1]⟩ := by
    refine Statement.checked_eq_ok_iff.mpr ⟨by rfl, Guard.checkStatement_ofList _ ?_ ?_⟩
    · decide +kernel
    · decide +kernel
  obtain ⟨-, pieces, -, -, whole⟩ :=
    writes_own_branches plainEnv plainEnv.call authoredPosts
  obtain ⟨own, tail, parts, -, -, bodies, same, -⟩ := pieces _ _ written
  refine ⟨rfl, written, rfl, rfl, fun all => ?_, own, tail, parts, bodies, same⟩
  have flat := whole.mp all _ (.head _)
  cases flat

end Query

end Relata
