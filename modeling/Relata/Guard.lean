import Relata.Error
import Relata.Text.Alphabet
import Relata.Text.Case

/-!
The read-only guard. A piece of SQL is refused if it holds a semicolon or one of the forbidden
keywords as a whole word, whatever the case of its letters; a statement is refused unless it begins
with the word that reads. The reason names the semicolon first, then the first keyword of the list.
-/

namespace Relata.Guard

/-- The keywords that write, in the order in which they are reported. The two of two words match
with exactly one blank between the words. -/
def forbidden : List String :=
  ["insert", "update", "delete", "replace", "create", "drop", "alter", "truncate", "grant",
    "revoke", "load data", "into outfile"]

/-- Whether a character is a form of a small letter: its capital, or one of the four letters that
differ from it only in case. -/
def isFormOf (letter c : Char) : Bool :=
  if c.toNat < 0x80 then c.toLower == letter
  else
    (letter == 's' && c.toNat == 0x17f) || (letter == 'k' && c.toNat == 0x212a) ||
      (letter == 'i' && (c.toNat == 0x130 || c.toNat == 0x131))

/-- The text after a keyword that stands in front of it. -/
def after? : List Char → List Char → Option (List Char)
  | [], text => some text
  | _ :: _, [] => none
  | letter :: keyword, c :: text => if isFormOf letter c then after? keyword text else none

/-- Whether a text begins with the keyword and no word character follows. -/
def beginsWith (keyword text : List Char) : Bool :=
  match after? keyword text with
  | some rest => !(rest.head?.any Text.isWord)
  | none => false

/-- Whether the keyword stands as a word in the text; `afterWord` tells whether a word character
stands just before it. -/
def occursFrom (keyword : List Char) : Bool → List Char → Bool
  | _, [] => false
  | afterWord, c :: rest =>
    (!afterWord && beginsWith keyword (c :: rest)) || occursFrom keyword (Text.isWord c) rest

def occurs (keyword text : List Char) : Bool := occursFrom keyword false text

/-- The first reason to refuse a piece of SQL. -/
def reason? (text : List Char) : Option String :=
  if text.contains ';' then some "semicolons are not allowed"
  else (forbidden.find? fun keyword => occurs keyword.toList text).map fun keyword =>
    s!"disallowed keyword `{keyword}`"

/-- Passes a piece of SQL that only reads; `context` names where it was given. -/
def checkPiece (text context : String) : Except Error Unit :=
  match reason? text.toList with
  | some reason => .error (.readOnly context reason)
  | none => .ok ()

/-- Whether a text, its blanks in front left out, begins with `select` in any case. -/
def isSelect (text : String) : Bool :=
  "select".toList.isPrefixOf (Text.lowercase (Text.stripped text)).toList

/-- Passes a statement that begins with `select` and only reads. -/
def checkStatement (text context : String) : Except Error Unit :=
  if isSelect text then checkPiece text context
  else .error (.readOnly context "only SELECT statements are permitted")

theorem checkPiece_eq_ok_iff {text context : String} :
    checkPiece text context = .ok () ↔ reason? text.toList = none := by
  unfold checkPiece
  split <;> simp_all

/-- A statement passes only if it begins with the word that reads and passes as a piece. -/
theorem checkStatement_eq_ok_iff {text context : String} :
    checkStatement text context = .ok () ↔ isSelect text = true ∧ reason? text.toList = none := by
  unfold checkStatement
  by_cases h : isSelect text = true
  · rw [if_pos h, checkPiece_eq_ok_iff]; simp [h]
  · rw [if_neg h]; simp [h]

/-- A statement that is given by its letters passes as these do. -/
theorem checkStatement_ofList {letters : List Char} (context : String)
    (reads : "select".toList.isPrefixOf (Text.lowerFrom false (Text.strip letters)) = true)
    (clean : reason? letters = none) : checkStatement (String.ofList letters) context = .ok () := by
  rw [checkStatement_eq_ok_iff, isSelect, Text.lowercase, Text.stripped]
  simp only [String.toList_ofList]
  exact ⟨reads, clean⟩

end Relata.Guard
