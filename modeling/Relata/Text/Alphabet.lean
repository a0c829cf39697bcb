import Relata.Text.Ranges

/-!
Classes of characters. A word character is a letter, a digit or numeral of any script, or the
underscore; combining marks are none. A blank is white space in the wide sense, the four information
separators included, but not the zero-width space. Below U+0080 the classes are decided by
comparison, above it by the tables.
-/

namespace Relata.Text

/-- Word characters, by code point. -/
def isWordCode (code : Nat) : Bool :=
  if code < 0x80 then
    (0x30 ≤ code && code ≤ 0x39) || (0x41 ≤ code && code ≤ 0x5a) || code == 0x5f ||
      (0x61 ≤ code && code ≤ 0x7a)
  else wordSpans.any (·.has code)

def isWord (c : Char) : Bool := isWordCode c.toNat

/-- White space. -/
def isSpace (c : Char) : Bool :=
  let code := c.toNat
  (0x9 ≤ code && code ≤ 0xd) || code == 0x20 || code == 0x85 || code == 0xa0 || code == 0x1680 ||
    (0x2000 ≤ code && code ≤ 0x200a) || code == 0x2028 || code == 0x2029 || code == 0x202f ||
    code == 0x205f || code == 0x3000

/-- White space in the wide sense, which stripping removes from both ends of a text. -/
def isBlank (c : Char) : Bool := isSpace c || (0x1c ≤ c.toNat && c.toNat ≤ 0x1f)

/-- The value of a decimal digit of any script. -/
def digit? (c : Char) : Option Nat :=
  if c.toNat < 0x80 then if c.isDigit then some (c.toNat - 0x30) else none
  else (scriptZeros.find? fun first => first ≤ c.toNat && c.toNat ≤ first + 9).map (c.toNat - ·)

/-- Characters that a quoted text shows as they are. -/
def isPrintable (c : Char) : Bool :=
  let code := c.toNat
  if code < 0x80 then 0x20 ≤ code && code < 0x7f else !darkSpans.any (·.has code)

/-- Drops the characters of a class at both ends. -/
def trim (among : Char → Bool) (s : List Char) : List Char :=
  ((s.dropWhile among).reverse.dropWhile among).reverse

def strip (s : List Char) : List Char := trim isBlank s

def stripped (s : String) : String := String.ofList (strip s.toList)

/-- Whether a text occurs in another one. -/
def occursIn (part : List Char) : List Char → Bool
  | [] => part.isEmpty
  | c :: rest => part.isPrefixOf (c :: rest) || occursIn part rest

/-- The pieces between the occurrences of `sep`; a text without `sep` is its own only piece. -/
def splitChar (sep : Char) : List Char → List (List Char)
  | [] => [[]]
  | c :: rest =>
    if c = sep then [] :: splitChar sep rest
    else match splitChar sep rest with
      | [] => [[c]]
      | piece :: pieces => (c :: piece) :: pieces

theorem splitChar_ne_nil (sep : Char) (s : List Char) : splitChar sep s ≠ [] := by
  induction s with
  | nil => simp [splitChar]
  | cons c rest ih =>
    by_cases h : c = sep
    · simp [splitChar, h]
    · simp only [splitChar, h, if_false]
      split <;> simp_all

/-- What stands before the first `sep`, and what stands after it if there is one. -/
def cutAt (sep : Char) : List Char → List Char × Option (List Char)
  | [] => ([], none)
  | c :: rest =>
    if c = sep then ([], some rest)
    else
      let (before, after) := cutAt sep rest
      (c :: before, after)

/-- Cutting loses nothing but the separator. -/
theorem cutAt_append (sep : Char) (s : List Char) :
    s = (cutAt sep s).1 ++
      (match (cutAt sep s).2 with | none => [] | some rest => sep :: rest) := by
  induction s with
  | nil => rfl
  | cons c rest ih =>
    by_cases h : c = sep
    · simp [cutAt, h]
    · simp only [cutAt, h, if_false, List.cons_append, List.cons.injEq, true_and]
      exact ih

/-- The piece before the first `sep` holds none. -/
theorem not_mem_cutAt_fst (sep : Char) (s : List Char) : sep ∉ (cutAt sep s).1 := by
  induction s with
  | nil => simp [cutAt]
  | cons c rest ih =>
    by_cases h : c = sep
    · simp [cutAt, h]
    · simpa [cutAt, h] using ⟨fun e => h e.symm, ih⟩

end Relata.Text
