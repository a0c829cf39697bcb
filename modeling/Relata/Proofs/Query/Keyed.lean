import Relata.Proofs.Query.Enclosed

/-!
Queries for keys. The query for related rows begins with the tests that link these to the keys of their
parents, and no builder call takes a condition away. Main statement: whatever the calls recorded on the
relation and the refinement do, the test for the keys stays in the query, and the keys are among the values
of its statement.
-/

namespace Relata

open Sql (Clause Condition Fragment Select Statement Test)

namespace Sql

/-- The values of the conditions, in their order, are among those of the select. -/
theorem Select.values_body {s : Select} {f : Fragment} (h : s.body = .ok f) :
    ((Condition.leavesOf s.conditions).flatMap fun t => t.fragment.values) <:+: f.values := by
  obtain ⟨columns, -, h⟩ := ok_of_bind h
  obtain ⟨grouping, -, h⟩ := ok_of_bind h
  obtain rfl := Except.ok.inj h
  have clause := (Select.carries_clause "WHERE" (by decide) (s.whereList s.from_)).values
  rw [Select.leavesOf_whereList, List.map_append, List.flatMap_append, List.flatMap_map] at clause
  simp only [Select.bodyOf, Fragment.values_append, clause]
  exact (((List.prefix_append ..).isInfix.trans (List.suffix_append ..).isInfix).trans
    (List.prefix_append ..).isInfix).trans (List.prefix_append ..).isInfix

theorem Statement.values_checked {s : Statement} {context : String} {f : Fragment}
    (h : s.checked context = .ok f) :
    ((Condition.leavesOf s.select.conditions).flatMap fun t => t.fragment.values) <:+: f.values := by
  obtain ⟨compiled, -⟩ := checked_eq_ok_iff.mp h
  obtain ⟨body, own, compiled⟩ := ok_of_bind compiled
  obtain ⟨branches, -, compiled⟩ := ok_of_bind compiled
  obtain ⟨tail, -, compiled⟩ := ok_of_bind compiled
  obtain rfl := Except.ok.inj compiled
  simp only [Fragment.values_append]
  exact ((Select.values_body own).trans (List.prefix_append ..).isInfix).trans
    (List.prefix_append ..).isInfix

end Sql

/-- The keys are what the last of the linking columns may hold. -/
theorem Env.keys_of_linkage {env : Env} {d : Descriptor} {parent related : Model} {keys : List Value}
    {l : Linkage} (h : env.linkage d parent related keys = .ok l) :
    ∃ column, l.columns.getLast? = some (column, keys) := by
  unfold linkage at h
  dsimp only at h
  split at h
  case h_1 | h_2 | h_3 | h_7 =>
    obtain rfl := Except.ok.inj h
    exact ⟨_, rfl⟩
  case h_4 | h_5 | h_6 =>
    obtain ⟨tags, -, h⟩ := ok_of_bind h
    obtain rfl := Except.ok.inj h
    exact ⟨_, rfl⟩
  case h_8 | h_9 =>
    obtain ⟨through, -, h⟩ := ok_of_bind h
    obtain rfl := Except.ok.inj h
    exact ⟨_, rfl⟩
  case h_10 => cases h

/-- What the conditions of a query begin with stays there. -/
theorem Build.lasting_conditions (first : List Clause) :
    Query.Lasting fun q => first <+: q.select.conditions where
  select _ _ onward own := own.trans onward.conditions
  branches _ _ own := own
  request _ _ _ _ := Query.Blind.keeps_request fun _ _ own => own
  anew _ own := own
  remove _ _ own := own

/-- The query asks for rows by these keys: its conditions begin with the tests that link rows to them, the
last of which tests a column for the keys. -/
structure Query.AsksBy (q : Query) (env : Env) (d : Descriptor) (parent : Model) (keys : List Value) :
    Prop where
  links : ∃ related l column, env.relatedModel d = .ok related ∧
    env.linkage d parent related keys = .ok l ∧ l.columns.getLast? = some (column, keys) ∧
    l.tests.map (.leaf .and) <+: q.select.conditions

/-- No call of the relation and none of the refinement takes the test for the keys away. -/
theorem Loader.asksBy_of_chunkQuery {self : Loader} {env : Env} {d : Descriptor} {parent : Model}
    {path : String} {keys : List Value} {q : Query}
    (built : self.chunkQuery env d parent path keys = .ok q) : q.AsksBy env d parent keys := by
  obtain ⟨first, queried, refined⟩ := ok_of_bind built
  unfold Env.relationQuery at queried
  dsimp only at queried
  split at queried
  · cases queried
  · obtain ⟨related, found, queried⟩ := ok_of_bind queried
    obtain ⟨base, new, queried⟩ := ok_of_bind queried
    obtain ⟨_, run⟩ := Build.ok_of_finish queried
    obtain ⟨_, linked, linking, run⟩ := Build.ok_of_bind run
    obtain ⟨_, constrained, recording, restricting⟩ := Build.ok_of_bind run
    obtain ⟨l, own, extended, -⟩ := Build.linkKeys_eq_ok linking
    obtain ⟨column, last⟩ := Env.keys_of_linkage own
    refine ⟨related, l, column, found, own, last, ?_⟩
    have lasting := Build.lasting_conditions (l.tests.map (.leaf .and))
    have begun : l.tests.map (.leaf .and) <+: linked.select.conditions := by
      rw [((Model.extended_of_query new).trans extended).conditions, List.map_append]
      exact List.prefix_append ..
    have keeps : Build.Keeps _ (discard (env.chain d.constraints)) fun _ => True :=
      (Query.Lasting.keeps_chain (lasting.keeps_callUpTo Build.callDepth) d.constraints).discard
    have chained := keeps linked begun _ _ recording
    have restricted := lasting.keeps_restrictColumns d related.table (self.columnsFor path) _ chained.1 _ _
      restricting
    exact lasting.of_refined restricted.1 refined

/-- The keys are among the values of the statement, in their order. -/
theorem Query.AsksBy.values {q : Query} {env : Env} {d : Descriptor} {parent : Model} {keys : List Value}
    (h : q.AsksBy env d parent keys) {context : String} {f : Fragment}
    (written : q.statement.checked context = .ok f) : keys <:+: f.values := by
  obtain ⟨related, l, column, -, -, last, rest, begins⟩ := h.links
  obtain ⟨earlier, columns⟩ := List.getLast?_eq_some_iff.mp last
  have own : (Test.among false column keys).fragment.values = keys := by
    cases keys <;> rfl
  have whole := Sql.Statement.values_checked written
  rw [show q.statement.select = q.select from rfl, ← begins, Condition.leavesOf_append,
    Condition.leavesOf_leaves, Linkage.tests, columns, List.map_append, List.map_singleton,
    List.flatMap_append, List.flatMap_append, List.flatMap_singleton, own] at whole
  exact ((List.suffix_append ..).isInfix.trans (List.prefix_append ..).isInfix).trans whole

end Relata
