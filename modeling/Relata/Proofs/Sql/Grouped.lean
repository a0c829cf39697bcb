import Relata.Proofs.Sql.Correlated

/-!
Groups as they are written. A group that compiles to nothing leaves no trace, wherever it stands: the list
without it has the same text and the same values. What is left is a sentence. At each level of parentheses
clauses stand with one operator between each two, which is that of the condition that the second one comes
from; there is no level without a clause.
-/

namespace Relata.Sql

open Condition (row rowFrom tokens)

namespace Clause

/-- The condition compiles to nothing. -/
def Vanishes (c : Clause) : Prop := (fragment c).text = ""

instance : DecidablePred Vanishes := fun _ => inferInstanceAs (Decidable (_ = _))

theorem vanishes_iff (c : Clause) : Vanishes c ↔ c.tokens = [] := tokensText_eq_empty_iff c.tokens

theorem not_vanishes_leaf (j : Junction) (t : Test) : ¬ Vanishes (.leaf j t) := by
  simp [vanishes_iff, tokens]

/-- A group compiles to nothing as far as the list within it does. -/
theorem vanishes_group_iff (j : Junction) (negated : Bool) (inside : List Clause) :
    Vanishes (.group j negated inside) ↔ row inside = [] := by
  rw [vanishes_iff, tokens, row]
  split <;> simp_all

theorem rowFrom_cons_of_vanishes {c : Clause} (nothing : Vanishes c) (started : Bool) (rest : List Clause) :
    rowFrom started (c :: rest) = rowFrom started rest := by
  simp [rowFrom, (vanishes_iff c).mp nothing]

theorem rowFrom_cons_of_not_vanishes {c : Clause} (some_ : ¬ Vanishes c) (started : Bool)
    (rest : List Clause) :
    rowFrom started (c :: rest) =
      (if started then [.junction c.junction] else []) ++ c.tokens ++ rowFrom true rest := by
  rw [vanishes_iff] at some_
  simp [rowFrom, some_]

/-- The second list is the first one without some of the groups that compile to nothing, at any places and
depths. -/
inductive Pruned : List Clause → List Clause → Prop where
  | nil : Pruned [] []
  | leaf (j : Junction) (t : Test) {cs ds : List Clause} (rest : Pruned cs ds) :
      Pruned (.leaf j t :: cs) (.leaf j t :: ds)
  | group (j : Junction) (negated : Bool) {inside less cs ds : List Clause} (within : Pruned inside less)
      (rest : Pruned cs ds) : Pruned (.group j negated inside :: cs) (.group j negated less :: ds)
  | drop {j : Junction} {negated : Bool} {inside cs ds : List Clause}
      (nothing : Vanishes (.group j negated inside)) (rest : Pruned cs ds) :
      Pruned (.group j negated inside :: cs) ds

theorem Pruned.rowFrom_eq {cs ds : List Clause} (h : Pruned cs ds) (started : Bool) :
    rowFrom started ds = rowFrom started cs := by
  induction h generalizing started with
  | nil => rfl
  | leaf j t rest ih => simp only [rowFrom, ih]
  | @group j negated inside less _ _ within rest inner outer =>
    have own : tokens (.group j negated less) = tokens (.group j negated inside) := by
      simp only [tokens, inner]
    simp only [rowFrom, own, Condition.junction, outer]
  | drop nothing rest ih => rw [ih, rowFrom_cons_of_vanishes nothing]

theorem Pruned.compile_eq {cs ds : List Clause} (h : Pruned cs ds) : compile ds = compile cs := by
  rw [compile, row, h.rowFrom_eq, compile, row]

mutual

/-- The condition without the groups within it that compile to nothing. -/
def trimmed : Clause → Clause
  | .leaf j t => .leaf j t
  | .group j negated inside => .group j negated (pruned inside)

/-- The list without any group that compiles to nothing. -/
def pruned : List Clause → List Clause
  | [] => []
  | c :: rest => if Vanishes c then pruned rest else trimmed c :: pruned rest

end

theorem pruned_pruned : ∀ cs : List Clause, Pruned cs (pruned cs)
  | [] => .nil
  | .leaf j t :: rest => by
    rw [pruned, if_neg (not_vanishes_leaf j t)]
    exact .leaf j t (pruned_pruned rest)
  | .group j negated inside :: rest => by
    rw [pruned]
    split
    · next nothing => exact .drop nothing (pruned_pruned rest)
    · exact .group j negated (pruned_pruned inside) (pruned_pruned rest)

/-- No group in it can be left out any more. -/
theorem Pruned.eq_pruned : ∀ {cs ds : List Clause}, Pruned (pruned cs) ds → ds = pruned cs
  | [], _, .nil => rfl
  | .leaf j t :: rest, ds, h => by
    rw [pruned, if_neg (not_vanishes_leaf j t)] at h ⊢
    cases h with
    | leaf _ _ later => rw [later.eq_pruned, trimmed]
  | .group j negated inside :: rest, ds, h => by
    rw [pruned] at h ⊢
    split at h
    · next nothing => rw [if_pos nothing, h.eq_pruned]
    · next some_ =>
      rw [if_neg some_]
      cases h with
      | group _ _ within later => rw [within.eq_pruned, later.eq_pruned, trimmed]
      | drop nothing _ =>
        rw [vanishes_group_iff, row, (pruned_pruned inside).rowFrom_eq] at nothing
        exact absurd ((vanishes_group_iff j negated inside).mpr nothing) some_

/-- The siblings that are written. -/
def visible (cs : List Clause) : List Clause := cs.filter fun c => ¬ Vanishes c

theorem visible_cons_of_vanishes {c : Clause} (nothing : Vanishes c) (rest : List Clause) :
    visible (c :: rest) = visible rest := by
  simp [visible, nothing]

theorem visible_cons_of_not_vanishes {c : Clause} (some_ : ¬ Vanishes c) (rest : List Clause) :
    visible (c :: rest) = c :: visible rest := by
  simp [visible, some_]

theorem rowFrom_of_visible_eq_nil (started : Bool) {cs : List Clause} (none : visible cs = []) :
    rowFrom started cs = [] := by
  induction cs with
  | nil => rfl
  | cons c rest ih =>
    by_cases own : Vanishes c
    · rw [rowFrom_cons_of_vanishes own, ih (by rwa [visible_cons_of_vanishes own] at none)]
    · simp [visible_cons_of_not_vanishes own] at none

/-- Behind other siblings the first one that is written is joined to them. -/
theorem rowFrom_true_of_visible {d : Clause} {later cs : List Clause} (some_ : visible cs = d :: later) :
    rowFrom true cs = .junction d.junction :: rowFrom false cs := by
  induction cs with
  | nil => cases some_
  | cons c rest ih =>
    by_cases own : Vanishes c
    · rw [visible_cons_of_vanishes own] at some_
      rw [rowFrom_cons_of_vanishes own, rowFrom_cons_of_vanishes own, ih some_]
    · rw [visible_cons_of_not_vanishes own] at some_
      obtain ⟨rfl, -⟩ := List.cons.inj some_
      simp [rowFrom_cons_of_not_vanishes own]

theorem compile_of_visible_eq_nil {cs : List Clause} (none : visible cs = []) : compile cs = .empty := by
  rw [compile, row, rowFrom_of_visible_eq_nil false none]
  rfl

/-- The fragment of a list is that of its first sibling that is written, and an operator with the later
ones if any of them is. -/
theorem compile_cons {c : Clause} (own : ¬ Vanishes c) (rest : List Clause) :
    compile (c :: rest) = fragment c ++ match visible rest with
      | [] => .empty
      | d :: _ => .plain s!" {d.junction.word} " ++ compile rest := by
  rw [compile, row, rowFrom_cons_of_not_vanishes own]
  simp only [Bool.false_eq_true, if_false, List.nil_append, List.map_append, Fragment.concat_append]
  congr 1
  split
  · next none => rw [rowFrom_of_visible_eq_nil true none]; rfl
  · next some_ => rw [rowFrom_true_of_visible some_]; rfl

/-- The fragment of a group that is written has that of the list within it between its parentheses. -/
theorem fragment_group {inside : List Clause} (some_ : row inside ≠ []) (j : Junction) (negated : Bool) :
    fragment (.group j negated inside) =
      .plain (if negated then "NOT (" else "(") ++ compile inside ++ .plain ")" := by
  rw [row] at some_
  simp [fragment, tokens, some_, Fragment.concat, Fragment.concat_append, compile, row, Token.fragment,
    Fragment.append_assoc]

end Clause

open Clause (Vanishes visible)

mutual

/-- A clause of a statement: a test, or clauses in parentheses. -/
inductive Phrase where
  | atom (test : Test)
  | enclosed (negated : Bool) (inside : Sentence)

/-- Clauses with an operator between each two. -/
inductive Sentence where
  | alone (p : Phrase)
  | joined (p : Phrase) (j : Junction) (rest : Sentence)

end

mutual

def Phrase.fragment : Phrase → Fragment
  | .atom test => test.fragment
  | .enclosed negated inside =>
    .plain (if negated then "NOT (" else "(") ++ inside.fragment ++ .plain ")"

def Sentence.fragment : Sentence → Fragment
  | .alone p => p.fragment
  | .joined p j rest => p.fragment ++ .plain s!" {j.word} " ++ rest.fragment

end

mutual

/-- The clause comes from the condition. -/
inductive Phrase.From : Clause → Phrase → Prop where
  | atom (j : Junction) (test : Test) : Phrase.From (.leaf j test) (.atom test)
  | enclosed (j : Junction) (negated : Bool) {children : List Clause} {s : Sentence}
      (inside : Sentence.From (visible children) s) :
      Phrase.From (.group j negated children) (.enclosed negated s)

/-- Each clause comes from the condition at its place, and so does the operator before it. -/
inductive Sentence.From : List Clause → Sentence → Prop where
  | alone {c : Clause} {p : Phrase} (own : Phrase.From c p) : Sentence.From [c] (.alone p)
  | joined {c d : Clause} {rest : List Clause} {p : Phrase} {s : Sentence} (own : Phrase.From c p)
      (later : Sentence.From (d :: rest) s) :
      Sentence.From (c :: d :: rest) (.joined p d.junction s)

end

mutual

theorem Phrase.text_ne_empty : ∀ p : Phrase, p.fragment.text ≠ ""
  | .atom test => (Token.leaf test).text_ne_empty
  | .enclosed negated inside => by
    cases negated <;> simp [Phrase.fragment]

theorem Sentence.text_ne_empty : ∀ s : Sentence, s.fragment.text ≠ ""
  | .alone p => p.text_ne_empty
  | .joined p j rest => by simp [Sentence.fragment, p.text_ne_empty]

end

open Clause (compile pruned Pruned)

mutual

theorem Phrase.exists_from : ∀ c : Clause, ¬ Vanishes c →
    ∃ p, Phrase.From c p ∧ Clause.fragment c = p.fragment
  | .leaf j test, _ => ⟨.atom test, .atom j test, by
    simp [Clause.fragment, tokens, Fragment.concat, Phrase.fragment, Token.fragment]⟩
  | .group j negated children, some_ => by
    rw [Clause.vanishes_group_iff] at some_
    have written : visible children ≠ [] := fun none =>
      some_ (Clause.rowFrom_of_visible_eq_nil false none)
    obtain ⟨s, inside, own⟩ := Sentence.exists_from children written
    refine ⟨.enclosed negated s, .enclosed j negated inside, ?_⟩
    rw [Clause.fragment_group some_, own, Phrase.fragment]

theorem Sentence.exists_from : ∀ cs : List Clause, visible cs ≠ [] →
    ∃ s, Sentence.From (visible cs) s ∧ compile cs = s.fragment
  | [], some_ => absurd rfl some_
  | c :: rest, some_ => by
    by_cases nothing : Vanishes c
    · rw [Clause.visible_cons_of_vanishes nothing] at some_ ⊢
      obtain ⟨s, comes, own⟩ := Sentence.exists_from rest some_
      refine ⟨s, comes, ?_⟩
      rw [compile, row, Clause.rowFrom_cons_of_vanishes nothing, ← own, compile, row]
    · obtain ⟨p, first, own⟩ := Phrase.exists_from c nothing
      rw [Clause.visible_cons_of_not_vanishes nothing, Clause.compile_cons nothing, own]
      cases later : visible rest with
      | nil => exact ⟨.alone p, .alone first, by simp [Sentence.fragment]⟩
      | cons d more =>
        obtain ⟨s, comes, others⟩ := Sentence.exists_from rest (by simp [later])
        rw [later] at comes
        refine ⟨.joined p d.junction s, .joined first comes, ?_⟩
        rw [Sentence.fragment, others, Fragment.append_assoc]

end

/-- Any conditions, nested to any depth. Leaving out groups that compile to nothing, at any places and
depths, changes neither the text nor the values, and so putting such groups in does not; all of them can
be left out. Either nothing is written, or a sentence, whose clauses and operators come from the
conditions that are written; and no sentence is an empty text, within parentheses or as a whole. -/
theorem Clause.compile_without_trace (cs : List Clause) :
    (∀ ds, Pruned cs ds → compile ds = compile cs) ∧
    (Pruned cs (pruned cs) ∧ ∀ ds, Pruned (pruned cs) ds → ds = pruned cs) ∧
    ((visible cs = [] ∧ compile cs = .empty) ∨
      ∃ s : Sentence, Sentence.From (visible cs) s ∧ compile cs = s.fragment) ∧
    ∀ s : Sentence, s.fragment.text ≠ "" := by
  refine ⟨fun ds less => less.compile_eq, ⟨pruned_pruned cs, fun ds less => less.eq_pruned⟩, ?_,
    Sentence.text_ne_empty⟩
  by_cases none : visible cs = []
  · exact .inl ⟨none, compile_of_visible_eq_nil none⟩
  · exact .inr (Sentence.exists_from cs none)

/-- A list with groups that say nothing in front of its tests and among them. -/
def Clause.scattered : List Clause :=
  [.group .or true [.group .and false []], .leaf .or (.compare "id" "=" (.int 1)),
    .group .and false [.group .or true [], .leaf .or (.null false "title")]]

theorem Clause.compile_scattered :
    Pruned scattered (pruned scattered) ∧ compile (pruned scattered) = compile scattered ∧
      (compile scattered).text = "id = ? AND (title IS NULL)" ∧
      ∃ s : Sentence, Sentence.From (visible scattered) s ∧ compile scattered = s.fragment := by
  obtain ⟨same, ⟨less, -⟩, ⟨none, -⟩ | sentence, -⟩ := compile_without_trace scattered
  · exact absurd none (by decide)
  · exact ⟨less, same _ less, by decide, sentence⟩

end Relata.Sql
