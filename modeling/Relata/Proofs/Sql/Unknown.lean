import Relata.Sql.Condition

/-!
Conditions on rows with nulls. A test of such a row may be neither true nor false but unknown, and
AND, OR and NOT go on with what is unknown as SQL has it. Where every test is known, the truth of
conditions is the one that `Condition.holds?` gives.
-/

namespace Relata.Sql

/-- What SQL takes a condition on a row for. -/
inductive Truth where
  | known (b : Bool)
  | unknown
deriving DecidableEq

namespace Truth

def not : Truth → Truth
  | known b => known !b
  | unknown => unknown

def and : Truth → Truth → Truth
  | known false, _ => known false
  | known true, b => b
  | unknown, known false => known false
  | unknown, _ => unknown

def or : Truth → Truth → Truth
  | known true, _ => known true
  | known false, b => b
  | unknown, known true => known true
  | unknown, _ => unknown

@[simp] theorem not_known (b : Bool) : (known b).not = known !b := rfl

@[simp] theorem not_not (a : Truth) : a.not.not = a := by
  cases a <;> simp [not]

@[simp] theorem and_known (a b : Bool) : (known a).and (known b) = known (a && b) := by
  cases a <;> rfl

@[simp] theorem or_known (a b : Bool) : (known a).or (known b) = known (a || b) := by
  cases a <;> rfl

end Truth

namespace Condition

variable {α : Type} (v : α → Truth)

mutual

/-- The truth of a condition on a row where a test may be unknown; nothing is said by one that comes
out empty. -/
def truth? : Condition α → Option Truth
  | leaf _ t => some (v t)
  | group _ negated children =>
    (truthOf none children).map fun b => if negated then b.not else b

/-- The truth of siblings, after the ones before them, as `meaning` has it. -/
def truthOf (done : Option (Truth × Truth)) : List (Condition α) → Option Truth
  | [] => done.map fun (earlier, current) => earlier.or current
  | c :: rest =>
    match c.truth?, done with
    | none, _ => truthOf done rest
    | some b, none => truthOf (some (.known false, b)) rest
    | some b, some (earlier, current) =>
      match c.junction with
      | .and => truthOf (some (earlier, current.and b)) rest
      | .or => truthOf (some (earlier.or current, b)) rest

end

/-- NOT before the parentheses turns the truth of a group into its negation. -/
theorem truth?_group_negated (j k : Junction) (cs : List (Condition α)) :
    (group j true cs).truth? v = ((group k false cs).truth? v).map Truth.not := by
  simp [truth?]

variable {v} {w : α → Bool}

mutual

/-- Where every test is known, so is what a condition says. -/
theorem truth?_of_known (known : ∀ t, v t = .known (w t)) :
    ∀ c : Condition α, c.truth? v = (c.holds? w).map .known
  | leaf _ t => by simp [truth?, holds?, known]
  | group _ negated children => by
    have inside := truthOf_of_known known none children
    rw [Option.map_none] at inside
    rw [truth?, holds?, inside, Option.map_map, Option.map_map]
    congr 1
    funext b
    cases negated <;> rfl

theorem truthOf_of_known (known : ∀ t, v t = .known (w t)) :
    ∀ (done : Option (Bool × Bool)) (cs : List (Condition α)),
    truthOf v (done.map fun (earlier, current) => (.known earlier, .known current)) cs =
      (meaning w done cs).map .known
  | done, [] => by cases done <;> simp [truthOf, meaning]
  | done, c :: rest => by
    have own := truth?_of_known known c
    unfold truthOf meaning
    rw [own]
    cases c.holds? w with
    | none => exact truthOf_of_known known done rest
    | some b => cases done with
      | none => simpa using truthOf_of_known known (some (false, b)) rest
      | some levels =>
        obtain ⟨earlier, current⟩ := levels
        cases c.junction with
        | and => simpa using truthOf_of_known known (some (earlier, current && b)) rest
        | or => simpa using truthOf_of_known known (some (earlier || current, b)) rest

end

end Condition

/-- Operators of which one asks for the rows that the other refuses. -/
inductive Opposite : String → String → Prop
  | unequal : Opposite "=" "!="
  | different : Opposite "=" "<>"
  | less : Opposite "<" ">="
  | greater : Opposite ">" "<="
  | unlike : Opposite "LIKE" "NOT LIKE"
  | symm {o p : String} : Opposite o p → Opposite p o

/-- Spellings of one word that differ in the case of letters at most. -/
def SameWord (o p : String) : Prop := o.toList.map Char.toUpper = p.toList.map Char.toUpper

instance (o p : String) : Decidable (SameWord o p) := inferInstanceAs (Decidable (_ = _))

/-- The truth that a database finds for the tests of a row: a column is null or it is not, opposite
comparisons are unknown together and exclude each other elsewhere, and no operator depends on the
case of its letters. -/
structure Judges (v : Test → Truth) : Prop where
  null : ∀ column, ∃ b, v (.null false column) = .known b ∧ v (.null true column) = .known !b
  opposite : ∀ {o p}, Opposite o p → ∀ column value,
    v (.compare column p value) = (v (.compare column o value)).not
  word : ∀ {o p}, SameWord o p → ∀ column value,
    v (.compare column o value) = v (.compare column p value)

/-- Whether a value passes the comparison with itself. -/
def holdsOfSame (operator : String) : Bool :=
  !(["!=", "<>", "<", ">", "NOT LIKE"].contains
    (String.ofList (operator.toList.map Char.toUpper)))

/-- The truth of tests on a row in which each column has the value that it is compared with. -/
def Test.sample : Test → Bool
  | .compare _ operator _ => holdsOfSame operator
  | .null negated _ => negated
  | _ => true

theorem judges_sample : Judges fun t => .known t.sample where
  null _ := ⟨false, rfl, rfl⟩
  opposite {o p} h _ _ := by
    have excludes : holdsOfSame p = !holdsOfSame o := by
      induction h with
      | symm _ ih => rw [ih, Bool.not_not]
      | _ => decide
    exact congrArg Truth.known excludes
  word {o p} same _ _ := by
    have capitals : o.toList.map Char.toUpper = p.toList.map Char.toUpper := same
    simp only [Test.sample, holdsOfSame, capitals]

end Relata.Sql
