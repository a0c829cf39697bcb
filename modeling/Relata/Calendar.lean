import Relata.Text.Alphabet

/-!
Moments of the calendar without a time zone, to the microsecond, and their written form: the date, a
separator and the time of day, with six places of a second only where there is a fraction.
-/

namespace Relata

structure Moment where
  year : Nat
  month : Nat
  day : Nat
  hour : Nat
  minute : Nat
  second : Nat
  micro : Nat
deriving DecidableEq, Inhabited

namespace Moment

def isLeap (year : Nat) : Bool := (year % 4 == 0 && year % 100 != 0) || year % 400 == 0

def daysIn (year month : Nat) : Nat :=
  if month = 2 then (if isLeap year then 29 else 28)
  else if month ∈ [4, 6, 9, 11] then 30 else 31

/-- The date exists and the time of day is one. -/
def Valid (m : Moment) : Prop :=
  1 ≤ m.year ∧ 1 ≤ m.month ∧ m.month ≤ 12 ∧ 1 ≤ m.day ∧ m.day ≤ daysIn m.year m.month ∧
    m.hour < 24 ∧ m.minute < 60 ∧ m.second < 60 ∧ m.micro < 1000000

instance (m : Moment) : Decidable m.Valid := by unfold Valid; infer_instance

/-- A number in decimal, filled with zeros in front to the width. -/
def padded (width n : Nat) : List Char :=
  let digits := Nat.toDigits 10 n
  List.replicate (width - digits.length) '0' ++ digits

def date (m : Moment) : List Char :=
  padded 4 m.year ++ '-' :: padded 2 m.month ++ '-' :: padded 2 m.day

def timeOfDay (m : Moment) : List Char :=
  padded 2 m.hour ++ ':' :: padded 2 m.minute ++ ':' :: padded 2 m.second ++
    (if m.micro = 0 then [] else '.' :: padded 6 m.micro)

/-- The date and the time of day with `separator` between them. -/
def written (separator : Char) (m : Moment) : String :=
  String.ofList (m.date ++ separator :: m.timeOfDay)

/-- A number of exactly `width` digits in front of a text, and the rest. -/
def fixed? (width : Nat) (s : List Char) : Option (Nat × List Char) :=
  let digits := s.take width
  if digits.length = width ∧ digits.all Char.isDigit then
    some (digits.foldl (fun n c => n * 10 + (c.toNat - 48)) 0, s.drop width)
  else none

/-- A given character in front of a text, and the rest. -/
def mark? (c : Char) : List Char → Option (List Char)
  | d :: rest => if d = c then some rest else none
  | [] => none

/-- The first six places of a fraction of a second, in microseconds. -/
def fraction? (s : List Char) : Option Nat :=
  if s.isEmpty || !s.all Char.isDigit then none
  else
    let digits := s.take 6 ++ List.replicate (6 - s.length) '0'
    some (digits.foldl (fun n c => n * 10 + (c.toNat - 48)) 0)

/-- Hour, minute, second and microsecond; the second and its fraction may be left out. -/
def readTime? (s : List Char) : Option (Nat × Nat × Nat × Nat) := do
  let (hour, s) ← fixed? 2 s
  let s ← mark? ':' s
  let (minute, s) ← fixed? 2 s
  if s.isEmpty then return (hour, minute, 0, 0)
  let s ← mark? ':' s
  let (second, s) ← fixed? 2 s
  match s with
  | [] => return (hour, minute, second, 0)
  | '.' :: fraction => return (hour, minute, second, ← fraction? fraction)
  | _ => none

/-- The numbers of a date, or of a date and a time of day with a letter T, a blank or an underscore
between them, whether or not there is such a moment. -/
def fields? (text : String) : Option Moment := do
  let (year, s) ← fixed? 4 text.toList
  let s ← mark? '-' s
  let (month, s) ← fixed? 2 s
  let s ← mark? '-' s
  let (day, s) ← fixed? 2 s
  let (hour, minute, second, micro) ← match s with
    | [] => some (0, 0, 0, 0)
    | c :: time => if c ∈ ['T', 't', ' ', '_'] then readTime? time else none
  return ⟨year, month, day, hour, minute, second, micro⟩

/-- The moment that a text writes. -/
def read? (text : String) : Option Moment := (fields? text).filter (decide ·.Valid)

/-- What is read is a moment of the calendar. -/
theorem valid_of_read? {text : String} {m : Moment} (h : read? text = some m) : m.Valid := by
  simpa using (Option.filter_eq_some_iff.1 h).2

end Moment

end Relata
