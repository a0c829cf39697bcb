import Relata.Proofs.Sql.Behind

/-!
A test put at the end of a list of conditions and joined by AND. It becomes part of the alternative
that is growing there, which is the last one: an alternative before it is complete and holds without
the test. Main statement: what the WHERE clause of such a select asks for, which is never more rows
than before, and which of them escape the test.
-/

namespace Relata.Sql

namespace Condition

variable {α : Type} (v : α → Bool)

/-- The level at which a whole list leaves off. The junction of the first sibling that says something
is not written, so it is not read either. -/
def lastLevel : List (Condition α) → Level
  | [] => .start
  | c :: rest => match c.holds? v with
    | none => lastLevel rest
    | some b => levelAfter v (Level.start.operand b) rest

theorem truth_lastLevel (cs : List (Condition α)) : (lastLevel v cs).truth = allHold v cs := by
  unfold allHold
  induction cs with
  | nil => rfl
  | cons c rest ih =>
    rw [lastLevel, meaning_none_cons]
    cases c.holds? v with
    | none => exact ih
    | some b => rfl

theorem lastLevel_append_leaf (cs : List (Condition α)) (t : α) :
    lastLevel v (cs ++ [.leaf .and t]) = (lastLevel v cs).operand (v t) := by
  induction cs with
  | nil => rfl
  | cons c rest ih =>
    simp only [List.cons_append, lastLevel]
    cases c.holds? v with
    | none => exact ih
    | some b => exact levelAfter_append v _ rest _

/-- The complete alternatives hold without the test, and the last one with it. -/
theorem allHold_append_test (cs : List (Condition α)) (t : α) :
    allHold v (cs ++ [.leaf .and t]) =
      ((lastLevel v cs).earlier || (lastLevel v cs).growing && v t) := by
  rw [← truth_lastLevel, lastLevel_append_leaf]
  rfl

end Condition

namespace Select

open Condition (allHold lastLevel reading)

/-- The select `after` is `q` with one more test at the end of its root conditions, as far as the
WHERE clause goes. -/
structure Appended (q after : Select) (t : Test) : Prop where
  conditions : after.conditions = q.conditions ++ [.leaf .and t]
  from_ : after.from_ = q.from_
  scope : ∀ table, after.deletionScope table = q.deletionScope table

/-- What the WHERE clause of `after` asks for, next to that of `q` and a test: the rows of some
alternative before the last, and of those in the last one the rows that pass the test. -/
structure Restricts (q after : Select) (t : Test) : Prop where
  reading : ∀ v : Test → Bool, reading v after.whereTokens =
    some (((lastLevel v q.conditions).earlier || (lastLevel v q.conditions).growing && v t) &&
      allHold v (q.deletionScope q.from_))
  /-- No row comes in that was out before. -/
  within : ∀ v : Test → Bool,
    Condition.reading v after.whereTokens = some true → Condition.reading v q.whereTokens = some true
  /-- The rows that come in without passing the test. -/
  escapes_iff : ∀ v : Test → Bool, v t = false →
    (Condition.reading v after.whereTokens = some true ↔
      (lastLevel v q.conditions).earlier = true ∧ allHold v (q.deletionScope q.from_) = true)
  /-- There are none as long as nothing is joined by OR. -/
  alone : hasAlternative q.conditions = false → ∀ v : Test → Bool,
    Condition.reading v after.whereTokens = some true ↔
      Condition.reading v q.whereTokens = some true ∧ v t = true

theorem reading_whereTokens (v : Test → Bool) (q : Select) : Condition.reading v q.whereTokens =
    some ((lastLevel v q.conditions).truth && allHold v (q.deletionScope q.from_)) := by
  rw [whereTokens, Condition.reading_row, allHold_whereList_eq, Condition.truth_lastLevel]

theorem Appended.restricts {q after : Select} {t : Test} (h : Appended q after t) :
    Restricts q after t := by
  have reading (v : Test → Bool) : Condition.reading v after.whereTokens =
      some (((lastLevel v q.conditions).earlier || (lastLevel v q.conditions).growing && v t) &&
        allHold v (q.deletionScope q.from_)) := by
    rw [whereTokens, Condition.reading_row, allHold_whereList_eq, h.conditions, h.scope, h.from_,
      Condition.allHold_append_test]
  refine ⟨reading, fun v holds => ?_, fun v fails => ?_, fun none_or v => ?_⟩
  · rw [reading] at holds
    rw [reading_whereTokens, Level.truth]
    revert holds
    cases (lastLevel v q.conditions).earlier <;> cases (lastLevel v q.conditions).growing <;> simp
  · rw [reading, fails]
    simp
  · have list := Condition.allHold_append_leaf v ((hasAlternative_eq_false_iff _).mp none_or) t
    rw [Condition.allHold_append_test] at list
    rw [reading, list, reading_whereTokens, Condition.truth_lastLevel]
    simp only [Option.some.injEq, Bool.and_eq_true]
    exact and_right_comm

end Select

end Relata.Sql
