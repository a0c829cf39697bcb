import Relata.Proofs.Sql.Behind
import Relata.Proofs.Sql.Unknown

/-!
The rows that satisfy a statement. A database goes through the rows of a table with what is joined to
them, and keeps those of which the WHERE clause is true; one of which it is unknown is not kept. Which
rows these are is seen at the table, the joins and the clause, whatever is selected. Main statements: the
tests that come first in conditions joined by AND are true of each of these rows, and a test for one value
may stand in for another.
-/

namespace Relata.Sql

/-- A row, and the rows joined with it, as a database goes through them. -/
structure Candidate where
  /-- The value of a column by the name that a statement gives it. -/
  value : String → Option Value
  truth : Test → Truth

/-- The rows of a table with what is joined to them, in the order in which a database goes through them. -/
abbrev Contents := String → List Join → List Candidate

/-- In each row a value is in a list of one as far as it is equal to that one. -/
def Contents.Coherent (contents : Contents) : Prop :=
  ∀ table joins, ∀ row ∈ contents table joins, ∀ column v,
    row.truth (.among false column [v]) = row.truth (.compare column "=" v)

namespace Condition

variable {α : Type} {v : α → Truth}

/-- As far as it says anything, it says what is true. -/
def Says (v : α → Truth) (c : Condition α) : Prop := ∀ b, c.truth? v = some b → b = .known true

theorem says_of_none {c : Condition α} (own : c.truth? v = none) : c.Says v := fun _ said => by
  rw [own] at said
  cases said

theorem says_of_some {c : Condition α} (own : c.truth? v = some (.known true)) : c.Says v := fun _ said =>
  Option.some.inj (said.symm.trans own)

/-- Siblings joined by AND are true together with what comes before them only if all of them are. -/
theorem says_of_truthOf {cs : List (Condition α)} (only_and : ∀ c ∈ cs, c.junction = .and) {current : Truth}
    (h : truthOf v (some (.known false, current)) cs = some (.known true)) :
    current = .known true ∧ ∀ c ∈ cs, c.Says v := by
  induction cs generalizing current with
  | nil => exact ⟨by simpa [truthOf, Truth.or] using h, List.forall_mem_nil _⟩
  | cons c rest ih =>
    have later : ∀ d ∈ rest, d.junction = .and := fun d there => only_and d (.tail _ there)
    unfold truthOf at h
    cases own : c.truth? v with
    | none =>
      rw [own] at h
      obtain ⟨true_, others⟩ := ih later h
      exact ⟨true_, List.forall_mem_cons.mpr ⟨says_of_none own, others⟩⟩
    | some b =>
      rw [own, only_and c (.head _)] at h
      obtain ⟨both, others⟩ := ih later h
      obtain ⟨rfl, rfl⟩ : current = .known true ∧ b = .known true := by
        cases current with
        | known a => cases a <;> simp_all [Truth.and]
        | unknown => cases b with
          | known b => cases b <;> cases both
          | unknown => cases both
      exact ⟨rfl, List.forall_mem_cons.mpr ⟨says_of_some own, others⟩⟩

/-- After something that has been said there is a truth. -/
theorem exists_of_truthOf (levels : Truth × Truth) (cs : List (Condition α)) :
    ∃ b, truthOf v (some levels) cs = some b := by
  induction cs generalizing levels with
  | nil => exact ⟨_, rfl⟩
  | cons c rest ih =>
    unfold truthOf
    cases c.truth? v with
    | none => exact ih levels
    | some b =>
      cases c.junction with
      | and => exact ih _
      | or => exact ih _

/-- Siblings joined by AND are true, or say nothing, only if this is so of all of them. -/
theorem says_of_all {cs : List (Condition α)} (only_and : ∀ c ∈ cs, c.junction = .and)
    (h : (truthOf v none cs).all (· == .known true) = true) : ∀ c ∈ cs, c.Says v := by
  induction cs with
  | nil => exact List.forall_mem_nil _
  | cons c rest ih =>
    have later : ∀ d ∈ rest, d.junction = .and := fun d there => only_and d (.tail _ there)
    unfold truthOf at h
    cases own : c.truth? v with
    | none =>
      rw [own] at h
      exact List.forall_mem_cons.mpr ⟨says_of_none own, ih later h⟩
    | some b =>
      rw [own] at h
      obtain ⟨whole, found⟩ := exists_of_truthOf (v := v) (.known false, b) rest
      change (truthOf v (some (.known false, b)) rest).all _ = true at h
      rw [found, Option.all_some, beq_iff_eq] at h
      obtain ⟨rfl, others⟩ := says_of_truthOf later (found.trans (congrArg some h))
      exact List.forall_mem_cons.mpr ⟨says_of_some own, others⟩

end Condition

namespace Select

/-- Whether the database keeps a row: the WHERE clause is true of it, or says nothing. -/
def Keeps (s : Select) (row : Candidate) : Bool :=
  (Condition.truthOf row.truth none (s.whereList s.from_)).all (· == .known true)

/-- The rows that satisfy the statement. -/
def kept (contents : Contents) (s : Select) : List Candidate := (contents s.from_ s.joins).filter s.Keeps

variable {s s' : Select} {row : Candidate} {own : List Clause}

theorem whereList_of_and (only_and : ∀ c ∈ s.conditions, c.junction = .and) (table : String) :
    s.whereList table = s.conditions ++ s.deletionScope table := by
  have none_ : hasAlternative s.conditions = false :=
    (hasAlternative_eq_false_iff _).mpr fun c there => by simp [only_and c (List.mem_of_mem_drop there)]
  simp [whereList, none_]

/-- Each test among conditions joined by AND is true of a row that is kept. -/
theorem Keeps.of_leaf (only_and : ∀ c ∈ s.conditions, c.junction = .and) (keeps : s.Keeps row = true)
    {j : Junction} {t : Test} (there : .leaf j t ∈ s.conditions) : row.truth t = .known true := by
  rw [Keeps, whereList_of_and only_and] at keeps
  have all_and := List.forall_mem_append.mpr ⟨only_and, @junction_of_deletionScope s s.from_⟩
  exact Condition.says_of_all all_and keeps _ (List.mem_append_left _ there) _ rfl

/-- In the place of the first test there may stand one that is as true. -/
theorem keeps_congr {t t' : Test} (conditions : s.conditions = .leaf .and t :: own)
    (conditions' : s'.conditions = .leaf .and t' :: own) (only_and : ∀ c ∈ own, c.junction = .and)
    (scope : s'.deletionScope s'.from_ = s.deletionScope s.from_) (same : row.truth t' = row.truth t) :
    s'.Keeps row = s.Keeps row := by
  have first {t : Test} : ∀ c ∈ Condition.leaf .and t :: own, c.junction = .and :=
    List.forall_mem_cons.mpr ⟨rfl, only_and⟩
  rw [Keeps, Keeps, whereList_of_and (conditions' ▸ first), whereList_of_and (conditions ▸ first), conditions,
    conditions', scope]
  simp only [List.cons_append, Condition.truthOf, Condition.truth?, same]

end Select

end Relata.Sql
