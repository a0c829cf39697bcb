import Relata.Value

/-!
Types of fields, and the reading of a value as one of them. A value of the right kind is taken as it
is; a number stands in for another kind of number where nothing is lost, and a text for what it
writes. All else is a fault.
-/

namespace Relata

inductive ScalarType where
  | any
  | text
  | int
  | float
  | bool
  | time
deriving DecidableEq, Inhabited

namespace ScalarType

private def truthWords : List (String × Bool) :=
  [("true", true), ("t", true), ("yes", true), ("y", true), ("on", true), ("1", true),
    ("false", false), ("f", false), ("no", false), ("n", false), ("off", false), ("0", false)]

def readText : Value → Except Fault String
  | .text s => .ok s
  | _ => .error .notText

/-- A floating number stands for an integer only below `2 ^ 63`. -/
def readInt : Value → Except Fault Int
  | .bool b => .ok (if b then 1 else 0)
  | .int i => .ok i
  | .float x => match x.toInt? with
    | some i => if i.natAbs < Numeral.wordBound then .ok i else .error .hugeInt
    | none => .error (if x.truncate?.isSome then .fractionalInt else .notFinite)
  | .text s => match Numeral.wholeInt s with
    | .ok i => .ok i
    | .error .malformed => .error .unreadableInt
    | .error .tooLong => .error .hugeInt
  | _ => .error .notInt

def readFloat : Value → Except Fault Binary64
  | .bool b => .ok (Binary64.ofInt (if b then 1 else 0))
  | .int i => match Binary64.ofInt? i with
    | some x => .ok x
    | none => .error .notFloat
  | .float x => .ok x
  | .text s => match Numeral.float? s with
    | some x => .ok x
    | none => .error .unreadableFloat
  | _ => .error .notFloat

/-- Zero and one as truth values; an integer out of range could not be meant so. -/
private def readBit (inRange : Bool) (i : Int) : Except Fault Bool :=
  if i = 0 then .ok false else if i = 1 then .ok true
  else .error (if inRange then .unreadableBool else .notBool)

def readBool : Value → Except Fault Bool
  | .bool b => .ok b
  | .int i => readBit (Numeral.fitsWord i) i
  | .float x => match x.toInt? with
    | some i => readBit (i.natAbs < Numeral.wordBound) i
    | none => .error .notBool
  | .text s => match truthWords.lookup (s.map Char.toLower) with
    | some b => .ok b
    | none => .error .unreadableBool
  | _ => .error .notBool

def readTime : Value → Except Fault Moment
  | .time m => .ok m
  | .text s => match Moment.read? s with
    | some m => .ok m
    | none => .error .unreadableMoment
  | _ => .error .notMoment

/-- The value as one of the type. -/
def read : ScalarType → Value → Except Fault Value
  | any, v => .ok v
  | text, v => (readText v).map .text
  | int, v => (readInt v).map .int
  | float, v => (readFloat v).map .float
  | bool, v => (readBool v).map .bool
  | time, v => (readTime v).map .time

end ScalarType

end Relata
