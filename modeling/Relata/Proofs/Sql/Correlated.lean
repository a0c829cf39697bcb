import Relata.Proofs.Sql.Behind

/-!
Subqueries on the rows that belong to a row around them. Their conditions compare columns of the
inner row with columns of the outer one, besides testing the inner row by itself. A column is looked
up in the inner row first; the outer row is asked only for what the inner one does not know.
-/

namespace Relata.Sql

namespace Fragment

theorem append_assoc (a b c : Fragment) : a ++ b ++ c = a ++ (b ++ c) := by
  cases a
  cases b
  cases c
  simp [mk_append, String.append_assoc]

@[simp] theorem empty_append (a : Fragment) : empty ++ a = a := by
  cases a
  simp [empty, mk_append]

@[simp] theorem append_empty (a : Fragment) : a ++ empty = a := by
  cases a
  simp [empty, mk_append]

theorem concat_append (fs gs : List Fragment) : concat (fs ++ gs) = concat fs ++ concat gs := by
  induction fs with
  | nil => simp [concat]
  | cons f rest ih => simp [concat, ih, append_assoc]

end Fragment

/-- A test of a row inside another one. -/
inductive LinkTest where
  /-- Two columns hold equal values. -/
  | equal (first second : String)
  /-- A test of the inner row by itself. -/
  | own (test : Test)

def LinkTest.fragment : LinkTest → Fragment
  | equal first second => .plain s!"{first} = {second}"
  | own test => test.fragment

namespace Condition

variable {α β : Type} (f : α → β)

mutual

/-- The condition with other tests for its leaves. -/
def mapped : Condition α → Condition β
  | leaf j t => leaf j (f t)
  | group j negated children => group j negated (mappedAll children)

def mappedAll : List (Condition α) → List (Condition β)
  | [] => []
  | c :: rest => mapped c :: mappedAll rest

end

@[simp] theorem junction_mapped (c : Condition α) : (c.mapped f).junction = c.junction := by
  cases c <;> rfl

end Condition

def Token.mapped {α β : Type} (f : α → β) : Token α → Token β
  | leaf t => leaf (f t)
  | junction j => junction j
  | opening negated => opening negated
  | closing => closing

namespace Condition

variable {α β : Type} (f : α → β)

mutual

theorem tokens_mapped : ∀ c : Condition α, (c.mapped f).tokens = c.tokens.map (Token.mapped f)
  | .leaf _ _ => rfl
  | .group _ _ children => by
    simp only [mapped, tokens, rowFrom_mappedAll false children, List.isEmpty_map]
    split
    · rfl
    · simp [Token.mapped]

theorem rowFrom_mappedAll (started : Bool) : ∀ cs : List (Condition α),
    rowFrom started (mappedAll f cs) = (rowFrom started cs).map (Token.mapped f)
  | [] => rfl
  | c :: rest => by
    simp only [mappedAll, rowFrom, tokens_mapped c, junction_mapped, List.isEmpty_map]
    split
    · exact rowFrom_mappedAll started rest
    · rw [rowFrom_mappedAll true rest]
      cases started <;> simp [Token.mapped]

end

variable (v : β → Bool)

mutual

theorem holds?_mapped : ∀ c : Condition α, (c.mapped f).holds? v = c.holds? (v ∘ f)
  | .leaf _ _ => rfl
  | .group _ _ children => by simp only [mapped, holds?, meaning_mappedAll none children]

theorem meaning_mappedAll (done : Option (Bool × Bool)) : ∀ cs : List (Condition α),
    meaning v done (mappedAll f cs) = meaning (v ∘ f) done cs
  | [] => rfl
  | c :: rest => by
    simp only [mappedAll, meaning, holds?_mapped c, junction_mapped]
    split
    · exact meaning_mappedAll _ rest
    · exact meaning_mappedAll _ rest
    · split
      · exact meaning_mappedAll _ rest
      · exact meaning_mappedAll _ rest

end

theorem allHold_mappedAll (cs : List (Condition α)) :
    allHold v (mappedAll f cs) = allHold (v ∘ f) cs := by
  rw [allHold, meaning_mappedAll, allHold]

end Condition

/-- What a token of a subquery stands for in a statement. -/
def Token.linkFragment : Token LinkTest → Fragment
  | leaf test => test.fragment
  | junction j => .plain s!" {j.word} "
  | opening negated => .plain (if negated then "NOT (" else "(")
  | closing => .plain ")"

@[simp] theorem Token.linkFragment_mapped (t : Token Test) :
    (t.mapped LinkTest.own).linkFragment = t.fragment := by
  cases t <;> rfl

/-- A subquery that selects one for each of its rows. -/
structure Subquery where
  table : String
  joins : List Join
  conditions : List (Condition LinkTest)

namespace Subquery

/-- The tables that are read. -/
def source (s : Subquery) : String :=
  s.table ++ (Fragment.concat (s.joins.map fun j =>
    .plain s!" JOIN {j.table} ON {j.first} {j.operator} {j.second}")).text

def tokens (s : Subquery) : List (Token LinkTest) := Condition.row s.conditions

def fragment (s : Subquery) : Fragment :=
  .plain s!"SELECT 1 FROM {s.source} WHERE " ++ .concat (s.tokens.map Token.linkFragment)

/-- The subquery after the selected expression. -/
def rows (s : Subquery) : Fragment :=
  .plain s!" FROM {s.source} WHERE " ++ .concat (s.tokens.map Token.linkFragment)

theorem fragment_eq_rows (s : Subquery) : s.fragment = .plain "SELECT 1" ++ s.rows := by
  have heading : Fragment.plain "SELECT 1" ++ .plain s!" FROM {s.source} WHERE " =
      .plain s!"SELECT 1 FROM {s.source} WHERE " := by
    simp [Fragment.plain, Fragment.mk_append, ← String.append_assoc]
  rw [fragment, rows, ← Fragment.append_assoc, heading]

end Subquery

/-- A row, and the rows joined with it, as a database sees them. -/
structure RowView where
  /-- The value of a column by a name under which it is known. -/
  value : String → Option Value
  /-- What the database counts as equal. -/
  equal : Value → Value → Bool
  /-- The truth of a test on the row. -/
  truth : Test → Bool
  /-- A column is in a list if it equals a value of the list. -/
  among : ∀ column items, truth (.among false column items) =
    items.any fun v => (value column).any (equal · v)

/-- The truth of a test on a row inside another one, of which `outer` gives the columns. -/
def LinkTest.truth (row : RowView) (outer : String → Option Value) : LinkTest → Bool
  | equal first second =>
    match (row.value first).or (outer first), (row.value second).or (outer second) with
    | some a, some b => row.equal a b
    | _, _ => false
  | own test => row.truth test

end Relata.Sql
