import Relata.Number.Binary64
import Relata.Text.Alphabet

/-!
Numbers read from text. An underscore may stand between two digits; a sign may stand in front. An
integer in text has at most `digitLimit` digits, leading zeros counted.
-/

namespace Relata.Numeral

/-- How many digits an integer in text may have. -/
def digitLimit : Nat := 4300

/-- Two to the power of 63. -/
def wordBound : Nat := 0x8000000000000000

/-- Whether an integer fits a machine word with a sign. -/
def fitsWord (i : Int) : Bool := -(wordBound : Int) ≤ i && i < wordBound

/-- The value of a digit from 0 to 9. -/
def plainDigit? (c : Char) : Option Nat := if c.isDigit then some (c.toNat - 0x30) else none

/-- The value of a row of decimal digits with single underscores between them. -/
def digits? (digit? : Char → Option Nat) (s : List Char) : Option Nat :=
  let rec go : Nat → Bool → List Char → Option Nat
    | value, afterDigit, [] => if afterDigit then some value else none
    | value, afterDigit, c :: rest =>
      match digit? c with
      | some d => go (value * 10 + d) true rest
      | none => if c = '_' ∧ afterDigit then go value false rest else none
  go 0 false s

/-- Splits off a leading sign; the flag tells a minus. -/
def sign : List Char → Bool × List Char
  | '-' :: rest => (true, rest)
  | '+' :: rest => (false, rest)
  | rest => (false, rest)

private def signed (negative : Bool) (n : Nat) : Int := if negative then -(n : Int) else n

private def trimmed (s : String) : List Char := Text.trim Text.isSpace s.toList

/-- An optionally signed decimal integer in digits of any script, surrounding white
space allowed. -/
def int? (s : String) : Option Int :=
  let (negative, body) := sign (trimmed s)
  if digitLimit < (body.filter (· != '_')).length then none
  else (digits? Text.digit? body).map (signed negative)

/-- The text of an integer, if its digits are not too many. -/
def written? (i : Int) : Option String :=
  let digits := Nat.toDigits 10 i.natAbs
  if digitLimit < digits.length then none
  else some (String.ofList (if i < 0 then '-' :: digits else digits))

/-- Why a text is not read as a whole number. -/
inductive Unread where
  | malformed
  | tooLong

/-- A whole number without the zeros in front of it: a digit above zero or a minus sign begins what
is left, or else the last zero is left. A point keeps the zero before it. -/
def withoutZeros (s : List Char) : Option (List Char) :=
  let rec go : Char → List Char → Option (List Char)
    | last, [] => some [last]
    | last, c :: rest =>
      if c = '0' ∨ c = '_' then go c rest
      else if c.isDigit ∨ c = '-' then some (c :: rest)
      else if c = '.' then some (last :: c :: rest)
      else none
  match s with
  | '0' :: rest => go '0' rest
  | c :: rest => if c.isDigit ∨ c = '-' then some (c :: rest) else none
  | [] => none

/-- What stands before a point that zeros alone follow; a text without a point is left as it is. -/
def withoutFraction (s : List Char) : Option (List Char) :=
  match Text.cutAt '.' s with
  | (_, none) => some s
  | (whole, some zeros) => if !zeros.isEmpty && zeros.all (· == '0') then some whole else none

/-- The text without its underscores, each of which stands between two other characters. -/
def withoutSeparators (s : List Char) : Option (List Char) :=
  if (Text.splitChar '_' s).all (!·.isEmpty) then some (s.filter (· != '_')) else none

/-- A whole number in plain digits, with leading zeros and a fraction of zeros allowed. -/
def wholeInt (s : String) : Except Unread Int :=
  let body : Option (List Char) := match trimmed s with
    | '+' :: '-' :: _ => none
    | '+' :: rest => some rest
    | rest => some rest
  match body >>= withoutZeros >>= withoutFraction >>= withoutSeparators with
  | none => .error .malformed
  | some number =>
    let (negative, digits) := match number with
      | '-' :: rest => (true, rest)
      | rest => (false, rest)
    if digits.isEmpty || !digits.all Char.isDigit then .error .malformed
    else if digitLimit < number.length then .error .tooLong
    else match digits? plainDigit? digits with
      | some n => .ok (signed negative n)
      | none => .error .malformed

private def lowered (s : List Char) : String := String.ofList (s.map Char.toLower)

/-- The digits of a row that may be empty, and how many there are. -/
private def part? (s : List Char) : Option (Nat × Nat) :=
  if s.isEmpty then some (0, 0)
  else (digits? plainDigit? s).map fun n => (n, (s.filter Char.isDigit).length)

/-- A decimal number with an optional fraction and power of ten, or a name of an infinite or
undefined one, surrounding white space allowed. -/
def float? (s : String) : Option Binary64 :=
  let (negative, body) := sign (trimmed s)
  let name := lowered body
  if name = "inf" ∨ name = "infinity" then some (.infinite negative)
  else if name = "nan" then some .nan
  else
    let (number, power) := Text.cutAt 'e' (body.map Char.toLower)
    let (whole, fraction) := Text.cutAt '.' number
    let power? : Option Int := match power with
      | none => some 0
      | some p =>
        let (below, p) := sign p
        (digits? plainDigit? p).map (signed below)
    match part? whole, part? (fraction.getD []), power? with
    | some (w, wide), some (f, places), some p =>
      if wide + places = 0 then none
      else some (Binary64.ofDecimal negative (w * Binary64.power 10 places + f) (p - places))
    | _, _, _ => none

end Relata.Numeral
