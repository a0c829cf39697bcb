import Relata.Sql.Fragment

/-!
Trees of conditions. A condition says by its junction how it joins the sibling before it; the
junction of the first sibling that comes out is not written. A group stands in parentheses, and one
that comes out empty leaves no trace.

A list of conditions is written as a row of tokens, and the text and the values are both read off
that row. The leaves are of any type, so the meaning of a list can be taken over any valuation of
them: `allHold` reads the tree, with AND binding tighter than OR among siblings.
-/

namespace Relata.Sql

inductive Junction where
  | and
  | or
deriving DecidableEq, Inhabited

/-- A condition with leaves of type `α`. -/
inductive Condition (α : Type) where
  | leaf (junction : Junction) (test : α)
  | group (junction : Junction) (negated : Bool) (children : List (Condition α))

inductive Token (α : Type) where
  | leaf (test : α)
  | junction (j : Junction)
  | opening (negated : Bool)
  | closing
deriving DecidableEq

namespace Condition

variable {α : Type}

def junction : Condition α → Junction
  | leaf j _ => j
  | group j _ _ => j

mutual

/-- The tokens of one condition, without its junction. -/
def tokens : Condition α → List (Token α)
  | leaf _ t => [.leaf t]
  | group _ negated children =>
    let inside := rowFrom false children
    if inside.isEmpty then [] else .opening negated :: inside ++ [.closing]

/-- The tokens of siblings; `started` tells whether one before them has come out. -/
def rowFrom (started : Bool) : List (Condition α) → List (Token α)
  | [] => []
  | c :: rest =>
    let own := c.tokens
    if own.isEmpty then rowFrom started rest
    else (if started then [.junction c.junction] else []) ++ own ++ rowFrom true rest

end

/-- The tokens of a list of siblings. -/
def row (conditions : List (Condition α)) : List (Token α) := rowFrom false conditions

mutual

/-- The truth of a condition under a valuation of the leaves; nothing is said by one that comes out
empty. -/
def holds? (v : α → Bool) : Condition α → Option Bool
  | leaf _ t => some (v t)
  | group _ negated children => (meaning v none children).map fun b => if negated then !b else b

/-- The truth of siblings, after the ones before them: `done` is the truth of the alternatives that
are complete, with that of the one still growing. -/
def meaning (v : α → Bool) (done : Option (Bool × Bool)) : List (Condition α) → Option Bool
  | [] => done.map fun (earlier, current) => earlier || current
  | c :: rest =>
    match c.holds? v, done with
    | none, _ => meaning v done rest
    | some b, none => meaning v (some (false, b)) rest
    | some b, some (earlier, current) =>
      match c.junction with
      | .and => meaning v (some (earlier, current && b)) rest
      | .or => meaning v (some (earlier || current, b)) rest

end

/-- The truth of a list of siblings; a list that says nothing holds. -/
def allHold (v : α → Bool) (conditions : List (Condition α)) : Bool :=
  (meaning v none conditions).getD true

end Condition

/-- A test on the columns of a row. -/
inductive Test where
  | compare (column operator : String) (value : Value)
  | among (negated : Bool) (column : String) (items : List Value)
  | null (negated : Bool) (column : String)
  | between (negated : Bool) (column : String) (low high : Value)
  /-- A piece of SQL as it is; the context names where it was given. -/
  | raw (text : String) (bindings : List Value) (context : String)

namespace Test

/-- A list of nothing holds no value: `0=1` is false and `1=1` true of every row. -/
def fragment : Test → Fragment
  | compare column operator value => ⟨s!"{column} {operator} ?", [value]⟩
  | among negated column items =>
    if items.isEmpty then .plain (if negated then "1=1" else "0=1")
    else
      let marks := ", ".intercalate (items.map fun _ => "?")
      let word := if negated then "NOT IN" else "IN"
      ⟨s!"{column} {word} ({marks})", items⟩
  | null negated column => .plain (column ++ (if negated then " IS NOT NULL" else " IS NULL"))
  | between negated column low high =>
    let word := if negated then "NOT BETWEEN" else "BETWEEN"
    ⟨s!"{column} {word} ? AND ?", [low, high]⟩
  | raw text bindings _ => ⟨s!"({text})", bindings⟩

end Test

namespace Junction

def word : Junction → String
  | and => "AND"
  | or => "OR"

end Junction

/-- What a token stands for in a statement. -/
def Token.fragment : Token Test → Fragment
  | leaf test => test.fragment
  | junction j => .plain s!" {j.word} "
  | opening negated => .plain (if negated then "NOT (" else "(")
  | closing => .plain ")"

/-- Conditions of a statement. -/
abbrev Clause := Condition Test

/-- The text and values of one condition. -/
def Clause.fragment (c : Clause) : Fragment := .concat (c.tokens.map Token.fragment)

/-- The text and values of a list of sibling conditions. -/
def Clause.compile (conditions : List Clause) : Fragment :=
  .concat ((Condition.row conditions).map Token.fragment)

end Relata.Sql
