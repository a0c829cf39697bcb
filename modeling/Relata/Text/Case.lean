import Relata.Text.CaseTable

/-!
Lower and upper forms of a text. Most letters map one to one; a few have a form of several
characters, and a capital sigma that ends a word becomes the final sigma. A word ends where no
letter with a case follows; marks, modifiers and inner punctuation are passed over in looking for
one.
-/

namespace Relata.Text

private def mapped (runs : List CaseRun) (expansions : List (Nat × List Nat)) (code : Nat) :
    List Char :=
  match expansions.find? (·.1 == code) with
  | some (_, codes) => codes.map Char.ofNat
  | none => [Char.ofNat ((runs.findSome? (·.image? code)).getD code)]

/-- The lower form of a character away from the end of a word. -/
def lowerChar (c : Char) : List Char :=
  if c.toNat < 0x80 then [c.toLower] else mapped lowerRuns lowerExpansions c.toNat

def upperChar (c : Char) : List Char :=
  if c.toNat < 0x80 then [c.toUpper] else mapped upperRuns upperExpansions c.toNat

/-- Letters with a case. -/
def isCased (c : Char) : Bool :=
  if c.toNat < 0x80 then c.isAlpha else casedSpans.any (·.has c.toNat)

/-- Characters that are passed over in looking for the letter before or behind a sigma. -/
def isPassed (c : Char) : Bool :=
  if c.toNat < 0x80 then c ∈ ['\'', '.', ':', '^', '\x60'] else passedSpans.any (·.has c.toNat)

/-- Whether a word goes on in the rest of a text. -/
def goesOn (rest : List Char) : Bool := (rest.dropWhile isPassed).head?.any isCased

/-- Lower form of the rest of a text; `inWord` tells whether a letter with a case stands
before it. -/
def lowerFrom (inWord : Bool) : List Char → List Char
  | [] => []
  | c :: rest =>
    let lower := if c.toNat = 0x3a3 ∧ inWord ∧ !goesOn rest then [Char.ofNat 0x3c2] else lowerChar c
    lower ++ lowerFrom (if isPassed c then inWord else isCased c) rest

def lowercase (s : String) : String := String.ofList (lowerFrom false s.toList)

def uppercase (s : String) : String := String.ofList (s.toList.flatMap upperChar)

end Relata.Text
