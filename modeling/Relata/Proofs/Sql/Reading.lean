import Relata.Sql.Condition

/-!
Conditions as SQL reads them. A text of conditions is a row of tokens, and its truth is found token
by token with what is open around it: at each level of parentheses stand the alternatives that are
complete and the one still growing, so AND binds tighter than OR. The tree that a row was written
from is not consulted; `reading_row` says that it has the same truth.
-/

namespace Relata.Sql

/-- What has been read at one level of parentheses: whether an alternative that is complete holds,
and whether the one still growing holds so far. -/
structure Level where
  earlier : Bool
  growing : Bool

namespace Level

/-- A level of which nothing has been read. -/
def start : Level := ⟨false, true⟩

/-- One more operand of the alternative that is growing. -/
def operand (l : Level) (b : Bool) : Level := ⟨l.earlier, l.growing && b⟩

/-- The alternative that was growing is complete, and another one begins. -/
def split (l : Level) : Level := ⟨l.earlier || l.growing, true⟩

def joined (l : Level) : Junction → Level
  | .and => l
  | .or => l.split

def truth (l : Level) : Bool := l.earlier || l.growing

end Level

namespace Condition

variable {α : Type} (v : α → Bool)

mutual

/-- The truth of a row that goes on with an operand, inside the levels `around`, each of which says
whether the parentheses opened in it are negated. What is no expression has none. -/
def readOperand (around : List (Bool × Level)) (level : Level) : List (Token α) → Option Bool
  | .leaf t :: rest => readOperator around (level.operand (v t)) rest
  | .opening negated :: rest => readOperand ((negated, level) :: around) .start rest
  | _ => none

/-- The truth of a row that goes on after an operand. -/
def readOperator (around : List (Bool × Level)) (level : Level) : List (Token α) → Option Bool
  | .junction j :: rest => readOperand around (level.joined j) rest
  | .closing :: rest => match around with
    | (negated, outer) :: around =>
      readOperator around (outer.operand (if negated then !level.truth else level.truth)) rest
    | [] => none
  | [] => if around.isEmpty then some level.truth else none
  | _ => none

end

/-- The truth of a row of tokens as SQL reads it; nothing at all asks for nothing. -/
def reading (tokens : List (Token α)) : Option Bool :=
  if tokens.isEmpty then some true else readOperand v [] .start tokens

example (a b c : α) :
    reading v [.leaf a, .junction .or, .leaf b, .junction .and, .leaf c] =
      some (v a || (v b && v c)) := by
  simp [reading, readOperand, readOperator, Level.start, Level.operand, Level.joined, Level.split,
    Level.truth]

/-- The level at which siblings leave off, coming after operands that were read already. -/
def levelAfter (level : Level) : List (Condition α) → Level
  | [] => level
  | c :: rest => match c.holds? v with
    | none => levelAfter level rest
    | some b => levelAfter ((level.joined c.junction).operand b) rest

theorem meaning_some (level : Level) (cs : List (Condition α)) :
    meaning v (some (level.earlier, level.growing)) cs = some (levelAfter v level cs).truth := by
  induction cs generalizing level with
  | nil => rfl
  | cons c rest ih =>
    cases hc : c.holds? v with
    | none => simpa [meaning, levelAfter, hc] using ih level
    | some b =>
      have step := ih ((level.joined c.junction).operand b)
      cases hj : c.junction <;>
        simpa [meaning, levelAfter, hc, hj, Level.joined, Level.split, Level.operand] using step

/-- The truth of siblings is that of the level at which the first operand among them begins. -/
theorem meaning_none_cons (c : Condition α) (rest : List (Condition α)) :
    meaning v none (c :: rest) = match c.holds? v with
      | none => meaning v none rest
      | some b => some (levelAfter v (Level.start.operand b) rest).truth := by
  cases hc : c.holds? v with
  | none => simp [meaning, hc]
  | some b =>
    simpa [meaning, hc, Level.start, Level.operand]
      using meaning_some v (Level.start.operand b) rest

mutual

/-- A condition comes out empty exactly when it says nothing. -/
theorem tokens_eq_nil_iff : ∀ c : Condition α, c.tokens = [] ↔ c.holds? v = none
  | .leaf _ _ => by simp [tokens, holds?]
  | .group _ negated children => by
    have inside := rowFrom_eq_nil_iff children
    simp only [tokens, holds?, Option.map_eq_none_iff, ← inside, List.isEmpty_iff]
    split <;> simp_all

theorem rowFrom_eq_nil_iff : ∀ cs : List (Condition α),
    rowFrom false cs = [] ↔ meaning v none cs = none
  | [] => by simp [rowFrom, meaning]
  | c :: rest => by
    have own := tokens_eq_nil_iff c
    have later := rowFrom_eq_nil_iff rest
    rw [rowFrom, meaning_none_cons]
    cases h : c.holds? v with
    | none => simpa [own.mpr h] using later
    | some b =>
      have nonempty : c.tokens ≠ [] := fun e => by simp [own.mp e] at h
      simp [nonempty]

end

mutual

/-- A condition that says something is read as one operand. -/
theorem readOperand_tokens (around : List (Bool × Level)) (level : Level) (rest : List (Token α)) :
    ∀ (c : Condition α) {b : Bool}, c.holds? v = some b →
      readOperand v around level (c.tokens ++ rest) = readOperator v around (level.operand b) rest
  | .leaf _ t, b, h => by
    obtain rfl : v t = b := by simpa [holds?] using h
    simp [tokens, readOperand]
  | .group _ negated children, b, h => by
    obtain ⟨inside, hm, rfl⟩ := Option.map_eq_some_iff.mp h
    have nonempty : rowFrom false children ≠ [] := fun e => by
      simp [(rowFrom_eq_nil_iff v children).mp e] at hm
    obtain ⟨last, rfl, hr⟩ :=
      readOperand_row ((negated, level) :: around) (.closing :: rest) children hm
    simp [tokens, nonempty, readOperand, hr, readOperator]

/-- Siblings that say something are read up to a level with their truth. -/
theorem readOperand_row (around : List (Bool × Level)) (rest : List (Token α)) :
    ∀ (cs : List (Condition α)) {b : Bool}, meaning v none cs = some b →
      ∃ last : Level, last.truth = b ∧
        readOperand v around .start (rowFrom false cs ++ rest) = readOperator v around last rest
  | [], b, h => by simp [meaning] at h
  | c :: cs, b, h => by
    rw [meaning_none_cons] at h
    cases hc : c.holds? v with
    | none =>
      have empty := (tokens_eq_nil_iff v c).mpr hc
      rw [hc] at h
      simpa [rowFrom, empty] using readOperand_row around rest cs h
    | some own =>
      have nonempty : c.tokens ≠ [] := fun e => by simp [(tokens_eq_nil_iff v c).mp e] at hc
      rw [hc] at h
      refine ⟨_, Option.some.inj h, ?_⟩
      simp only [rowFrom, List.isEmpty_iff, nonempty, if_false, Bool.false_eq_true, List.nil_append,
        List.append_assoc]
      rw [readOperand_tokens around .start _ c hc, readOperator_row around _ rest cs]

/-- Siblings after others are read from the level of those to the level after themselves. -/
theorem readOperator_row (around : List (Bool × Level)) (level : Level) (rest : List (Token α)) :
    ∀ cs : List (Condition α),
      readOperator v around level (rowFrom true cs ++ rest) =
        readOperator v around (levelAfter v level cs) rest
  | [] => rfl
  | c :: cs => by
    cases hc : c.holds? v with
    | none =>
      have empty := (tokens_eq_nil_iff v c).mpr hc
      simpa [rowFrom, empty, levelAfter, hc] using readOperator_row around level rest cs
    | some own =>
      have nonempty : c.tokens ≠ [] := fun e => by simp [(tokens_eq_nil_iff v c).mp e] at hc
      simp only [rowFrom, List.isEmpty_iff, nonempty, if_false, if_true, List.append_assoc,
        List.cons_append, List.nil_append, readOperator, levelAfter, hc]
      rw [readOperand_tokens around _ _ c hc, readOperator_row around _ rest cs]

end

/-- The row of a list of siblings is read with the truth of the list. -/
theorem reading_row (cs : List (Condition α)) : reading v (row cs) = some (allHold v cs) := by
  unfold reading row allHold
  cases h : meaning v none cs with
  | none => simp [(rowFrom_eq_nil_iff v cs).mpr h]
  | some b =>
    have nonempty : rowFrom false cs ≠ [] := fun e => by
      simp [(rowFrom_eq_nil_iff v cs).mp e] at h
    obtain ⟨last, truth, read⟩ := readOperand_row v [] [] cs h
    simpa [nonempty, readOperator, truth] using read

end Condition

end Relata.Sql
