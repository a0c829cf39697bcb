import Mathlib.Algebra.Ring.Nat
import Relata.Sql.Condition

/-!
Texts woven from fragments: the pieces stand in their order, with texts in between that hold no
placeholder. If each piece has as many placeholders as values, then the placeholders of the whole
text stand in the order of the values, each in the piece that brings its value (`Woven.aligned`).
A row of tokens is woven from the tests in it, whatever the junctions and parentheses around them.
-/

namespace Relata.Sql

/-- A text without placeholders, as names are. -/
abbrev Unmarked (s : String) : Prop := Fragment.placeholders s = 0

/-- The text is the pieces in their order, with unmarked texts before, between and after them. -/
inductive Woven : List Fragment → String → Prop where
  | done {glue : String} (unmarked : Unmarked glue) : Woven [] glue
  | piece {glue text : String} {c : Fragment} {rest : List Fragment} (unmarked : Unmarked glue)
      (later : Woven rest text) : Woven (c :: rest) (glue ++ c.text ++ text)

/-- Number `i` among the placeholders of the text and number `i` among the values of the pieces are
one place: number `j` of the same piece. -/
def Aligned (pieces : List Fragment) (text : String) (i : Nat) : Prop :=
  ∃ (before : List Fragment) (c : Fragment) (after : List Fragment) (left right : String) (j : Nat),
    pieces = before ++ c :: after ∧ text = left ++ c.text ++ right ∧
    Woven before left ∧ Woven after right ∧
    j < Fragment.placeholders c.text ∧ i = Fragment.placeholders left + j ∧
    j < c.values.length ∧ i = (before.flatMap Fragment.values).length + j

namespace Woven

open Fragment (placeholders placeholders_append)

variable {pieces more : List Fragment} {text right : String}

theorem glue {g : String} (unmarked : Unmarked g) (h : Woven pieces text) :
    Woven pieces (g ++ text) := by
  cases h with
  | done h => exact done (by simp_all [Unmarked])
  | piece h later =>
    rw [← String.append_assoc, ← String.append_assoc]
    exact piece (by simp_all [Unmarked]) later

theorem append (h : Woven pieces text) (k : Woven more right) :
    Woven (pieces ++ more) (text ++ right) := by
  induction h with
  | done unmarked => exact k.glue unmarked
  | piece unmarked later ih =>
    rw [String.append_assoc]
    exact piece unmarked ih

theorem single (c : Fragment) : Woven [c] c.text := by
  have h : Woven [c] ("" ++ c.text ++ "") := piece rfl (done rfl)
  simpa using h

/-- An unmarked piece at the end is as good as none. -/
theorem dropLast {c : Fragment} (unmarked : Unmarked c.text) :
    ∀ {pieces : List Fragment} {text : String}, Woven (pieces ++ [c]) text → Woven pieces text
  | [], _, piece h (done k) => done (by simp_all [Unmarked])
  | _ :: _, _, piece h later => piece h (dropLast unmarked later)

theorem placeholders_eq (h : Woven pieces text) :
    placeholders text = (pieces.map fun c => placeholders c.text).sum := by
  induction h with
  | done unmarked => simpa using unmarked
  | piece unmarked later ih =>
    simp only [placeholders_append, List.map_cons, List.sum_cons, ih]
    omega

theorem placeholders_before (h : Woven pieces text) (balanced : ∀ c ∈ pieces, c.Balanced) :
    placeholders text = (pieces.flatMap Fragment.values).length := by
  rw [h.placeholders_eq, List.length_flatMap]
  exact congrArg List.sum (List.map_congr_left balanced)

/-- Each value has its placeholder in the piece that brings it. -/
theorem aligned (h : Woven pieces text) (balanced : ∀ c ∈ pieces, c.Balanced) {i : Nat}
    (bound : i < (pieces.flatMap Fragment.values).length) : Aligned pieces text i := by
  induction h generalizing i with
  | done unmarked => simp at bound
  | @piece glue text c rest unmarked later ih =>
    have own : placeholders c.text = c.values.length := balanced c (by simp)
    by_cases here : i < c.values.length
    · refine ⟨[], c, rest, glue, text, i, rfl, rfl, done unmarked, later, ?_, ?_, here, ?_⟩
      · omega
      · rw [unmarked]; omega
      · simp
    · have others : ∀ d ∈ rest, d.Balanced := fun d hd => balanced d (by simp [hd])
      have further : i - c.values.length < (rest.flatMap Fragment.values).length := by
        simp only [List.flatMap_cons, List.length_append] at bound
        omega
      obtain ⟨before, d, after, left, right, j, rfl, rfl, wb, wa, hj, hl, hv, hb⟩ :=
        ih others further
      refine ⟨c :: before, d, after, glue ++ c.text ++ left, right, j, rfl, ?_, piece unmarked wb,
        wa, hj, ?_, hv, ?_⟩
      · simp [String.append_assoc]
      · simp only [placeholders_append, unmarked]
        omega
      · simp only [List.flatMap_cons, List.length_append]
        omega

end Woven

namespace Condition

variable {α : Type}

mutual

/-- The tests of a condition, depth first. -/
def leaves : Condition α → List α
  | leaf _ t => [t]
  | group _ _ children => leavesOf children

def leavesOf : List (Condition α) → List α
  | [] => []
  | c :: rest => c.leaves ++ leavesOf rest

end

theorem leavesOf_append (xs ys : List (Condition α)) :
    leavesOf (xs ++ ys) = leavesOf xs ++ leavesOf ys := by
  induction xs with
  | nil => rfl
  | cons c rest ih => simp [leavesOf, ih]

variable {v w : α → Bool}

mutual

theorem holds?_congr : ∀ c : Condition α, (∀ t ∈ c.leaves, v t = w t) → c.holds? v = c.holds? w
  | .leaf _ t, agree => congrArg some (agree t List.mem_cons_self)
  | .group _ _ children, agree => by rw [holds?, holds?, meaning_congr none children agree]

theorem meaning_congr (done : Option (Bool × Bool)) : ∀ cs : List (Condition α),
    (∀ t ∈ leavesOf cs, v t = w t) → meaning v done cs = meaning w done cs
  | [], _ => rfl
  | c :: rest, agree => by
    have own := holds?_congr c fun t ht => agree t (List.mem_append_left _ ht)
    have later := fun done =>
      meaning_congr done rest fun t ht => agree t (List.mem_append_right _ ht)
    simp only [meaning, own, later]

end

/-- The truth of siblings depends on that of their tests. -/
theorem allHold_congr {cs : List (Condition α)} (agree : ∀ t ∈ leavesOf cs, v t = w t) :
    allHold v cs = allHold w cs := by
  rw [allHold, meaning_congr none cs agree, allHold]

end Condition

/-- The test that a token is. -/
def Token.leaf? {α : Type} : Token α → Option α
  | leaf t => some t
  | _ => none

namespace Condition

variable {α : Type}

mutual

theorem leaf?_tokens : ∀ c : Condition α, c.tokens.filterMap Token.leaf? = c.leaves
  | .leaf _ t => rfl
  | .group _ negated children => by
    have inside := leaf?_rowFrom false children
    by_cases h : rowFrom false children = []
    · simp_all [tokens, leaves]
    · simp [tokens, leaves, h, List.filterMap_cons, Token.leaf?, inside]

theorem leaf?_rowFrom (started : Bool) : ∀ cs : List (Condition α),
    (rowFrom started cs).filterMap Token.leaf? = leavesOf cs
  | [] => rfl
  | c :: rest => by
    have own := leaf?_tokens c
    by_cases h : c.tokens = []
    · have later := leaf?_rowFrom started rest
      simp_all [rowFrom, leavesOf]
    · have later := leaf?_rowFrom true rest
      cases started <;>
        simp [rowFrom, leavesOf, h, List.filterMap_cons, Token.leaf?, own, later]

end

/-- The tests in a row of siblings are those of the siblings, depth first. -/
theorem leaf?_row (cs : List (Condition α)) : (row cs).filterMap Token.leaf? = leavesOf cs :=
  leaf?_rowFrom false cs

end Condition

namespace Fragment

/-- The fragment is woven from the pieces and has their values in their order. -/
structure Carries (f : Fragment) (pieces : List Fragment) : Prop where
  woven : Woven pieces f.text
  values : f.values = pieces.flatMap Fragment.values

variable {f g : Fragment} {pieces more : List Fragment}

theorem Carries.append (hf : f.Carries pieces) (hg : g.Carries more) :
    (f ++ g).Carries (pieces ++ more) :=
  ⟨hf.woven.append hg.woven, by simp [hf.values, hg.values]⟩

theorem Carries.single (c : Fragment) : c.Carries [c] := ⟨.single c, by simp⟩

theorem Carries.plain {s : String} (unmarked : Unmarked s) : (plain s).Carries [] :=
  ⟨.done unmarked, rfl⟩

/-- An unmarked piece without values at the end is as good as none. -/
theorem Carries.dropLast {c : Fragment} (unmarked : Unmarked c.text) (bare : c.values = [])
    (h : f.Carries (pieces ++ [c])) : f.Carries pieces :=
  ⟨.dropLast unmarked h.woven, by simp [h.values, bare]⟩

/-- The placeholders exceed or miss the values by as much as those of the pieces do. -/
theorem Carries.counts (h : f.Carries pieces) :
    placeholders f.text = (pieces.map fun c => placeholders c.text).sum ∧
      f.values.length = (pieces.map fun c => c.values.length).sum := by
  rw [h.values, List.length_flatMap]
  exact ⟨h.woven.placeholders_eq, rfl⟩

end Fragment

/-- What is written around the tests holds no placeholder. -/
theorem carries_tokens : ∀ ts : List (Token Test),
    (Fragment.concat (ts.map Token.fragment)).Carries
      ((ts.filterMap Token.leaf?).map Test.fragment)
  | [] => .plain rfl
  | .leaf t :: rest => (Fragment.Carries.single t.fragment).append (carries_tokens rest)
  | .junction j :: rest =>
    (Fragment.Carries.plain (by cases j <;> decide)).append (carries_tokens rest)
  | .opening negated :: rest =>
    (Fragment.Carries.plain (by cases negated <;> decide)).append (carries_tokens rest)
  | .closing :: rest => (Fragment.Carries.plain (by decide)).append (carries_tokens rest)

/-- A list of conditions is woven from its tests, depth first. -/
theorem carries_compile (cs : List Clause) :
    (Clause.compile cs).Carries ((Condition.leavesOf cs).map Test.fragment) := by
  rw [← Condition.leaf?_row cs]
  exact carries_tokens (Condition.row cs)

end Relata.Sql
