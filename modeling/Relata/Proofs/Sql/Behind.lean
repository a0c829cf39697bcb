import Relata.Proofs.Sql.Deletion

/-!
Conditions put behind tests that are joined by AND. The tests restrict the alternative that begins
with them, and no other: AND binds tighter than OR, so what follows a sibling joined by OR holds by
itself. Main statement: the truth of such a list, in terms of the conditions up to the first such
sibling and of the alternatives from there on.
-/

namespace Relata.Sql

namespace Condition

variable {α : Type} (v : α → Bool)

/-- Whether the siblings before the first one joined by OR hold. One that says nothing joins
nothing. -/
def leadingHold : List (Condition α) → Bool
  | [] => true
  | c :: rest => match c.holds? v, c.junction with
    | none, _ => leadingHold rest
    | some b, .and => b && leadingHold rest
    | some _, .or => true

/-- Whether an alternative holds that begins with a sibling joined by OR. -/
def alternativeHolds : List (Condition α) → Bool
  | [] => false
  | c :: rest => match c.holds? v, c.junction with
    | none, _ => alternativeHolds rest
    | some _, .and => alternativeHolds rest
    | some b, .or => b && leadingHold v rest || alternativeHolds rest

theorem truth_levelAfter (level : Level) (cs : List (Condition α)) :
    (levelAfter v level cs).truth =
      (level.earlier || level.growing && leadingHold v cs || alternativeHolds v cs) := by
  induction cs generalizing level with
  | nil => simp [levelAfter, leadingHold, alternativeHolds, Level.truth]
  | cons c rest ih =>
    simp only [levelAfter, leadingHold, alternativeHolds]
    cases c.holds? v with
    | none => exact ih level
    | some b =>
      rw [ih]
      cases c.junction with
      | and => simp [Level.joined, Level.operand, Bool.and_assoc]
      | or => simp [Level.joined, Level.operand, Level.split, Bool.or_assoc]

/-- Tests joined by AND take part in the alternative that is growing. -/
theorem levelAfter_leaves (level : Level) (ts : List α) :
    levelAfter v level (ts.map (.leaf .and)) = ⟨level.earlier, level.growing && ts.all v⟩ := by
  induction ts generalizing level with
  | nil => simp [levelAfter]
  | cons t rest ih =>
    simp only [List.map_cons, levelAfter, holds?, ih, junction, Level.joined, Level.operand,
      List.all_cons, Bool.and_assoc]

/-- Tests joined by AND with siblings behind them. -/
theorem allHold_leaves_append {ts : List α} (some_ : ts ≠ []) (cs : List (Condition α)) :
    allHold v (ts.map (.leaf .and) ++ cs) =
      (ts.all v && leadingHold v cs || alternativeHolds v cs) := by
  cases ts with
  | nil => exact absurd rfl some_
  | cons t rest =>
    unfold allHold
    rw [List.map_cons, List.cons_append, meaning_none_cons]
    simp only [holds?, Option.getD_some, levelAfter_append, levelAfter_leaves, truth_levelAfter,
      Level.start, Level.operand, List.all_cons, Bool.true_and, Bool.false_or]

theorem junction_of_leaves {ts : List α} :
    ∀ c ∈ ts.map (Condition.leaf .and), c.junction = .and := by
  intro c hc
  obtain ⟨t, -, rfl⟩ := List.mem_map.mp hc
  rfl

theorem leadingHold_leaves (ts : List α) : leadingHold v (ts.map (.leaf .and)) = ts.all v := by
  induction ts with
  | nil => rfl
  | cons t rest ih => simp [leadingHold, holds?, junction, ih]

variable {cs : List (Condition α)} (only_and : ∀ c ∈ cs, c.junction = .and)
include only_and

theorem leadingHold_append (later : List (Condition α)) :
    leadingHold v (cs ++ later) = (leadingHold v cs && leadingHold v later) := by
  induction cs with
  | nil => rfl
  | cons c rest ih =>
    have further := ih fun d hd => only_and d (List.mem_cons_of_mem c hd)
    simp only [List.cons_append, leadingHold, only_and c List.mem_cons_self]
    cases c.holds? v with
    | none => exact further
    | some b => simp only [further, Bool.and_assoc]

/-- Siblings joined by AND have no alternative. -/
theorem alternativeHolds_eq_false : alternativeHolds v cs = false := by
  induction cs with
  | nil => rfl
  | cons c rest ih =>
    have later := ih fun d hd => only_and d (by simp [hd])
    simp only [alternativeHolds, only_and c List.mem_cons_self]
    cases c.holds? v with
    | none => exact later
    | some b => exact later

/-- Siblings joined by AND hold all together. -/
theorem allHold_eq_leadingHold : allHold v cs = leadingHold v cs := by
  unfold allHold
  induction cs with
  | nil => rfl
  | cons c rest ih =>
    have later : ∀ d ∈ rest, d.junction = .and := fun d hd => only_and d (by simp [hd])
    rw [meaning_none_cons, leadingHold, only_and c List.mem_cons_self]
    cases c.holds? v with
    | none => exact ih later
    | some b =>
      simp [truth_levelAfter, Level.start, Level.operand, alternativeHolds_eq_false v later]

theorem allHold_append {later : List (Condition α)} (only_and' : ∀ c ∈ later, c.junction = .and) :
    allHold v (cs ++ later) = (allHold v cs && allHold v later) := by
  rw [allHold_eq_leadingHold v (List.forall_mem_append.mpr ⟨only_and, only_and'⟩),
    leadingHold_append v only_and, allHold_eq_leadingHold v only_and,
    allHold_eq_leadingHold v only_and']

omit only_and in
theorem allHold_leaves (ts : List α) : allHold v (ts.map (.leaf .and)) = ts.all v := by
  rw [allHold_eq_leadingHold v junction_of_leaves, leadingHold_leaves]

omit only_and in
/-- Siblings in parentheses hold as they hold by themselves. -/
theorem leadingHold_group (cs : List (Condition α)) :
    leadingHold v [.group .and false cs] = allHold v cs := by
  unfold allHold
  cases h : meaning v none cs with
  | none => simp [leadingHold, holds?, h]
  | some b => simp [leadingHold, holds?, h, junction]

end Condition

namespace Select

/-- The scope is one test at most. -/
theorem deletionScope_cases (q : Select) (table : String) :
    q.deletionScope table = [] ∨ ∃ t, q.deletionScope table = [.leaf .and t] := by
  unfold deletionScope
  split
  · exact .inl rfl
  · split
    · exact .inr ⟨_, rfl⟩
    · exact .inr ⟨_, rfl⟩
    · exact .inl rfl

theorem junction_of_deletionScope {q : Select} {table : String} :
    ∀ c ∈ q.deletionScope table, c.junction = .and := by
  intro c hc
  rcases q.deletionScope_cases table with none_ | ⟨t, scope⟩
  · rw [none_] at hc
    cases hc
  · rw [scope] at hc
    rw [List.mem_singleton.mp hc]
    rfl

/-- The conditions of a WHERE clause say what the root conditions say, and the deletion scope
besides. -/
theorem allHold_whereList_eq (v : Test → Bool) (q : Select) (table : String) :
    Condition.allHold v (q.whereList table) =
      (Condition.allHold v q.conditions && Condition.allHold v (q.deletionScope table)) := by
  obtain none | ⟨t, scope⟩ := q.deletionScope_cases table
  · simp [whereList, none, Condition.allHold, Condition.meaning]
  · rw [allHold_whereList_of_scope v q table scope, scope]
    simp [Condition.allHold, Condition.meaning, Condition.holds?]

/-- A WHERE clause whose root conditions begin with tests joined by AND. -/
theorem reading_of_leaves {q : Select} {ts : List Test} (some_ : ts ≠ []) {own : List Clause}
    (conditions : q.conditions = ts.map (.leaf .and) ++ own) (v : Test → Bool) :
    Condition.reading v q.whereTokens =
      some ((ts.all v && Condition.leadingHold v own || Condition.alternativeHolds v own) &&
        Condition.allHold v (q.deletionScope q.from_)) := by
  rw [whereTokens, Condition.reading_row, allHold_whereList_eq, conditions,
    Condition.allHold_leaves_append v some_]

end Select

end Relata.Sql
