import Relata.Sql.Select
import Relata.Validation.Record

/-!
Conditions and joins built from records of fields. A condition is named by its kind and reads its
fields in the order junction, column, then its own; a raw one is shown to the guard before its
fields are read, so a forbidden text is reported whatever else is wrong with it.
-/

namespace Relata.Sql

inductive ConditionKind where
  | basic
  | among (negated : Bool)
  | null (negated : Bool)
  | between (negated : Bool)
  | raw
  | group
deriving DecidableEq

private def junctions : List (String × Junction) := [("AND", .and), ("OR", .or)]

private def joinKinds : List (String × JoinKind) :=
  [("inner", .inner), ("left", .left), ("right", .right), ("cross", .cross)]

namespace Clause

/-- A condition of one kind, its children being built already. -/
def read (kind : ConditionKind) (r : Record) (children : List Clause) : Checked Clause :=
  let junction := r.choice "boolean" (some .and) junctions
  let column := r.text "column" none
  match kind with
  | .basic =>
    (fun j c o v => .leaf j (.compare c o v)) <$> junction <*> column <*>
      r.text "operator" (some "=") <*> r.any "value" (some .null)
  | .among negated =>
    (fun j c items => .leaf j (.among negated c items)) <$> junction <*> column <*> r.items "items"
  | .null negated => (fun j c => .leaf j (.null negated c)) <$> junction <*> column
  | .between negated =>
    (fun j c low high => .leaf j (.between negated c low high)) <$> junction <*> column <*>
      r.any "low" none <*> r.any "high" none
  | .raw =>
    (fun j text bindings context => .leaf j (.raw text bindings context)) <$> junction <*>
      r.text "fragment" none <*> r.items "bindings" <*> r.text "context" (some "where_raw")
  | .group =>
    (fun j negated => .group j negated children) <$> junction <*>
      r.field "negated" (some false) ScalarType.readBool

/-- A condition built from its fields, past the guard if it is a raw one. -/
def build (kind : ConditionKind) (r : Record) (children : List Clause) : Except Error Clause := do
  if kind = .raw then
    let text := ((r.get? "fragment").map Value.shown).getD ""
    let context := ((r.get? "context").map Value.shown).getD "where_raw"
    Guard.checkPiece text context
  (read kind r children).toExcept

/-- A raw condition given by a caller in the named context. -/
def raw (junction : Junction) (text : Value) (bindings : List Value) (context : String) :
    Except Error Clause := do
  Guard.checkPiece text.shown context
  match text with
  | .text s => .ok (.leaf junction (.raw s bindings context))
  | _ => .error (.invalid [⟨["fragment"], .notText⟩])

end Clause

/-- The faults of a name that has to be a text. -/
def nameIssues (field : String) : Value → List Issue
  | .text _ => []
  | _ => [⟨[field], .notText⟩]

namespace Join

/-- A join built from its fields; all but a cross join need both columns and the operator. -/
def read (r : Record) : Checked Join :=
  let parts := (fun kind table first operator second => (kind, table, first, operator, second)) <$>
    r.choice "kind" (some JoinKind.inner) joinKinds <*> r.text "table" none <*> r.text? "first" <*>
      r.text? "operator" <*> r.text? "second"
  parts.andThen fun
    | (.cross, table, first, operator, second) =>
      .good ⟨.cross, table, first.getD "", operator.getD "", second.getD ""⟩
    | (kind, table, some first, some operator, some second) =>
      .good ⟨kind, table, first, operator, second⟩
    | _ => .bad [⟨[], .incomplete⟩]

end Join

end Relata.Sql
