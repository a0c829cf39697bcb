/-!
The order in which a class and its ancestors are searched: the class first, then a merge of the
orders of its bases and of the list of bases, which keeps every one of them. At each step the merge
takes the first head that stands behind no other; if every head does, the bases contradict each
other.
-/

namespace Relata.Linearization

variable {α : Type} [DecidableEq α]

/-- Whether `a` stands behind the head of one of the lists. -/
def isBehind (a : α) (lists : List (List α)) : Bool := lists.any fun l => (l.drop 1).contains a

/-- The first head that stands behind no other. -/
def candidate? (lists : List (List α)) : Option α :=
  lists.findSome? fun
    | [] => none
    | a :: _ => if isBehind a lists then none else some a

/-- The lists without `a` at their heads. -/
def without (a : α) (lists : List (List α)) : List (List α) :=
  lists.map fun
    | [] => []
    | b :: rest => if b = a then rest else b :: rest

/-- The merge of lists with at most `size` members in all. -/
def mergeUpTo : Nat → List (List α) → Option (List α)
  | 0, lists => if lists.all (·.isEmpty) then some [] else none
  | size + 1, lists =>
    if lists.all (·.isEmpty) then some []
    else do
      let a ← candidate? lists
      let rest ← mergeUpTo size (without a lists)
      return a :: rest

/-- One order that keeps each of the lists, if there is one. -/
def merge (lists : List (List α)) : Option (List α) :=
  mergeUpTo lists.flatten.length lists

/-- The order of a class over its bases, given the order of each. A base given twice has none. -/
def of (self : α) (bases : List α) (orders : List (List α)) : Option (List α) :=
  if bases.Nodup then (merge (orders ++ [bases])).map (self :: ·) else none

end Relata.Linearization
