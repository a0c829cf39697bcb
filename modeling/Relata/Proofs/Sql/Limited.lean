import Mathlib.Data.List.Chain
import Mathlib.Data.List.Infix
import Relata.Proofs.Sql.Guarded

/-!
A statement with limits put behind it. They say nothing that the guard forbids: no forbidden keyword
begins among the words LIMIT and OFFSET and the numbers, and none that the statement leaves open at its
end goes on with them. Main statement: a query without limits that may be sent may be sent with limits,
if the numbers can be written; its text is then the one it had, with LIMIT and OFFSET at the end.
-/

namespace Relata

namespace Guard

/-- Two characters that a forbidden keyword may begin with. -/
def opens (x y : Char) : Bool := forbidden.any fun keyword => match keyword.toList with
  | a :: b :: _ => isFormOf a x && isFormOf b y
  | _ => true

/-- Keywords are two letters long at least. -/
theorem exists_letters_of_forbidden {keyword : String} (own : keyword ∈ forbidden) :
    ∃ a b more, keyword.toList = a :: b :: more := by
  have long : ∀ keyword ∈ forbidden, 2 ≤ keyword.toList.length := by decide
  rcases letters : keyword.toList with _ | ⟨a, _ | ⟨b, more⟩⟩
  · exact absurd (long keyword own) (by simp [letters])
  · exact absurd (long keyword own) (by simp [letters])
  · exact ⟨a, b, more, rfl⟩

theorem opens_of_spelled {keyword : String} (own : keyword ∈ forbidden) {word : List Char}
    (spelled : List.Forall₂ (fun letter c => isFormOf letter c = true) keyword.toList word) :
    ∃ x y rest, word = x :: y :: rest ∧ opens x y = true := by
  obtain ⟨a, b, more, letters⟩ := exists_letters_of_forbidden own
  rw [letters] at spelled
  obtain ⟨x, _, hx, more, rfl⟩ := List.forall₂_cons_left_iff.mp spelled
  obtain ⟨y, rest, hy, -, rfl⟩ := List.forall₂_cons_left_iff.mp more
  exact ⟨x, y, rest, rfl, List.any_eq_true.mpr ⟨keyword, own, by simp [letters, hx, hy]⟩⟩

/-- A text in which no forbidden keyword begins, and that goes on with none that has begun before it:
it sets out with a blank, and an L is not what follows the blank of a keyword. -/
structure Harmless (tail : List Char) : Prop where
  start : ∃ rest, tail = ' ' :: 'L' :: rest
  chain : tail.IsChain fun x y => opens x y = false

theorem Harmless.not_begins {tail before word after : List Char} (h : Harmless tail) {keyword : String}
    (own : keyword ∈ forbidden) (split : tail = before ++ (word ++ after)) :
    ¬ List.Forall₂ (fun letter c => isFormOf letter c = true) keyword.toList word := by
  intro spelled
  obtain ⟨x, y, rest, rfl, opened⟩ := opens_of_spelled own spelled
  have chain := h.chain
  rw [split, List.isChain_append] at chain
  have closed := chain.2.1
  simp only [List.cons_append, List.isChain_cons_cons] at closed
  exact absurd opened (by simp [closed.1])

/-- No forbidden keyword has a blank with that letter behind it. -/
def closes (letter : Char) : Bool := forbidden.all fun keyword => keyword.toList.tails.all fun left =>
  !left.head?.any (isFormOf · ' ') || (left.drop 1).head?.any (!isFormOf · letter)

/-- A keyword that is open does not go on with a blank and such a letter. -/
theorem not_continues_of_closes {letter : Char} (closed : closes letter = true) {keyword : String}
    (own : keyword ∈ forbidden) {left word rest after : List Char} (suffix : left <:+ keyword.toList)
    (open_ : word ≠ []) (split : ' ' :: letter :: rest = word ++ after) :
    ¬ List.Forall₂ (fun letter c => isFormOf letter c = true) left word := by
  intro spelled
  obtain ⟨x, word, rfl⟩ := List.exists_cons_of_ne_nil open_
  obtain ⟨rfl, later⟩ := List.cons.inj split
  obtain ⟨l, left, hl, others, rfl⟩ := List.forall₂_cons_right_iff.mp spelled
  have goesOn := List.all_eq_true.mp (List.all_eq_true.mp closed keyword own) _
    ((List.mem_tails _ _).mpr suffix)
  rw [List.head?_cons, Option.any_some, hl, Bool.not_true, Bool.false_or] at goesOn
  obtain ⟨m, there, other⟩ := (Option.any_eq_true _ _).mp goesOn
  cases others with
  | nil => cases there
  | cons hm _ =>
    obtain ⟨rfl, -⟩ := List.cons.inj later
    obtain rfl := Option.some.inj there
    rw [hm] at other
    cases other

theorem Harmless.not_continues {tail word after : List Char} (h : Harmless tail) {keyword : String}
    (own : keyword ∈ forbidden) {left : List Char} (suffix : left <:+ keyword.toList)
    (open_ : word ≠ []) (split : tail = word ++ after) :
    ¬ List.Forall₂ (fun letter c => isFormOf letter c = true) left word := by
  obtain ⟨rest, rfl⟩ := h.start
  exact not_continues_of_closes (by decide +kernel) own suffix open_ split

/-- What is harmless brings no keyword into a text. -/
theorem Harmless.occurs_of_append {text tail : List Char} (h : Harmless tail) {keyword : String}
    (own : keyword ∈ forbidden) (occurs : Occurs keyword.toList (text ++ tail)) :
    Occurs keyword.toList text := by
  obtain ⟨before, word, after, whole, spelled, free, ends⟩ := occurs
  rw [List.append_assoc] at whole
  obtain ⟨inside, rfl, later⟩ | ⟨outside, -, later⟩ := List.append_eq_append_iff.mp whole.symm
  · obtain ⟨rest, rfl, rfl⟩ | ⟨crossing, rfl, split⟩ := List.append_eq_append_iff.mp later
    · refine ⟨before, word, rest, by simp, spelled, free, ?_⟩
      cases rest with
      | nil => rfl
      | cons c rest => exact ends
    · by_cases ended : crossing = []
      · subst ended
        exact ⟨before, inside, [], by simp, by simpa using spelled, free, rfl⟩
      · have left := List.forall₂_drop_append _ _ _ spelled
        exact absurd left (h.not_continues own (List.drop_suffix _ _) ended split)
  · exact absurd spelled (h.not_begins own later)

/-- The limits of a page as they are written behind a statement. -/
def limits (size before : Nat) : String := s!" LIMIT {size} OFFSET {before}"

theorem eq_of_isFormOf {letter c : Char} (digit : c.isDigit = true) (form : isFormOf letter c = true) :
    letter = c := by
  have range : 48 ≤ c.toNat ∧ c.toNat ≤ 57 := by
    simpa [Char.isDigit, UInt32.le_iff_toNat_le] using digit
  have lower : c.toLower = c := by
    have low : ¬ (c.val ≥ 'A'.val ∧ c.val ≤ 'Z'.val) := by
      simp only [ge_iff_le, UInt32.le_iff_toNat_le]
      exact fun upper => absurd (upper.1.trans range.2) (by decide)
    exact dif_neg low
  have small : c.toNat < 0x80 := by omega
  rw [isFormOf, if_pos small, lower] at form
  exact (eq_of_beq form).symm

/-- No keyword begins with a number, or goes on with one. -/
theorem opens_of_isDigit {x y : Char} (digit : x.isDigit = true ∨ y.isDigit = true) :
    opens x y = false := by
  have letters : forbidden.all (·.toList.all (!·.isDigit)) = true := by decide +kernel
  have letter {keyword : String} (own : keyword ∈ forbidden) {a : Char} (there : a ∈ keyword.toList) :
      a.isDigit = false :=
    Bool.not_eq_true' _ ▸ List.all_eq_true.mp (List.all_eq_true.mp letters keyword own) a there
  refine List.any_eq_false.mpr fun keyword own => ?_
  obtain ⟨a, b, more, spelled⟩ := exists_letters_of_forbidden own
  rw [spelled]
  intro forms
  obtain ⟨hx, hy⟩ := by simpa using forms
  obtain digit | digit := digit
  · have own_ := letter own (show a ∈ keyword.toList by simp [spelled])
    rw [eq_of_isFormOf digit hx, digit] at own_
    cases own_
  · have own_ := letter own (show b ∈ keyword.toList by simp [spelled])
    rw [eq_of_isFormOf digit hy, digit] at own_
    cases own_

theorem toList_limits (size before : Nat) : (limits size before).toList =
    " LIMIT ".toList ++ ((toString size).toList ++ (" OFFSET ".toList ++ (toString before).toList)) := by
  simp [limits]

theorem isDigit_of_mem_toString {n : Nat} {c : Char} (there : c ∈ (toString n).toList) :
    c.isDigit = true := by
  rw [Nat.toString_eq_ofList_toDigits, String.toList_ofList] at there
  exact Nat.isDigit_of_mem_toDigits (by decide) (by decide) there

theorem harmless_limits (size before : Nat) : Harmless (limits size before).toList := by
  rw [toList_limits]
  refine ⟨⟨_, rfl⟩, ?_⟩
  have limit : " LIMIT ".toList.IsChain fun x y => opens x y = false := by decide
  have offset : " OFFSET ".toList.IsChain fun x y => opens x y = false := by decide
  have number (n : Nat) : (toString n).toList.IsChain fun x y => opens x y = false :=
    List.Pairwise.isChain (List.pairwise_of_forall_mem_list fun x there _ _ =>
      opens_of_isDigit (.inl (isDigit_of_mem_toString there)))
  -- Where a word meets a number, one of the two characters is a digit.
  refine List.isChain_append.mpr ⟨limit, List.isChain_append.mpr ⟨number size,
    List.isChain_append.mpr ⟨offset, number before, ?_⟩, ?_⟩, ?_⟩
  · intro _ _ y there
    exact opens_of_isDigit (.inr (isDigit_of_mem_toString (List.mem_of_mem_head? there)))
  · intro x there _ _
    exact opens_of_isDigit (.inl (isDigit_of_mem_toString (List.mem_of_mem_getLast? there)))
  · intro x _ y there
    have some_ : (toString size).toList ≠ [] := by simp [Nat.toDigits_ne_nil]
    rw [List.head?_append_of_ne_nil _ some_] at there
    exact opens_of_isDigit (.inr (isDigit_of_mem_toString (List.mem_of_mem_head? there)))

/-- A text that sets out with the word that reads still does, in small letters and without the blanks at
its ends. -/
theorem reads_of_prefix {text : String} (reads : "SELECT".toList <+: text.toList) :
    "select".toList <+: (Text.lowercase (Text.stripped text)).toList := by
  obtain ⟨rest, letters⟩ := reads
  obtain ⟨rest, stripped⟩ : ∃ rest', Text.strip ("SELECT".toList ++ rest) = "SELECT".toList ++ rest' := by
    have front : ("SELECT".toList ++ rest).dropWhile Text.isBlank = "SELECT".toList ++ rest := by
      have first : Text.isBlank 'S' = false := by decide
      simp [first]
    rw [Text.strip, Text.trim, front, List.reverse_append, List.dropWhile_append]
    split
    · exact ⟨[], by decide⟩
    · exact ⟨(rest.reverse.dropWhile Text.isBlank).reverse, by simp⟩
  simp only [Text.lowercase, Text.stripped, ← letters, stripped, String.toList_ofList]
  exact ⟨Text.lowerFrom true rest, rfl⟩

/-- Limits behind a statement that only reads do no harm. -/
theorem ReadOnly.limited {text : String} (h : ReadOnly text) (reads : "SELECT".toList <+: text.toList)
    (size before : Nat) : ReadOnly (text ++ limits size before) where
  reads := by
    refine reads_of_prefix ?_
    rw [String.toList_append]
    exact reads.trans (List.prefix_append _ _)
  single := by
    have plain {n : Nat} : ';' ∉ (toString n).toList := fun there =>
      absurd (isDigit_of_mem_toString there) (by decide)
    have single := h.single
    simp only [String.toList_append, toList_limits, List.mem_append, not_or]
    exact ⟨single, by decide, plain, by decide, plain⟩
  clean keyword own occurs := by
    rw [String.toList_append] at occurs
    exact h.clean keyword own ((harmless_limits size before).occurs_of_append own occurs)

end Guard

/-- A number that is short enough is written in its digits. -/
theorem Numeral.written?_natCast {n : Nat} (short : (Nat.toDigits 10 n).length ≤ digitLimit) :
    written? n = some (toString n) := by
  rw [written?, Int.natAbs_natCast, if_neg (Nat.not_lt.mpr short), if_neg (by simp),
    Nat.toString_eq_ofList_toDigits]

namespace Sql

/-- The select with limits: `size` rows at most, the first `before` rows being left out. -/
def Select.limited (q : Select) (size before : Nat) : Select :=
  { q with offset := .int before, limit := .int size }

namespace Select

variable {q : Select} {size before : Nat}

theorem bound_natCast (keyword : String) {n : Nat}
    (short : (Nat.toDigits 10 n).length ≤ Numeral.digitLimit) :
    bound keyword (.int n) = .ok s!" {keyword} {n}" := by
  have count : rowCount (.int n) = .ok n := rfl
  simp only [bound, Value.isNull, count, bind, Except.bind, Numeral.written?_natCast short,
    Bool.false_eq_true, if_false]
  rfl

/-- The limits stand behind the ordering. -/
theorem tail_limited (free : q.limit = .null) (free' : q.offset = .null) {tail : String}
    (written : q.tail = .ok tail) (short : (Nat.toDigits 10 size).length ≤ Numeral.digitLimit)
    (short' : (Nat.toDigits 10 before).length ≤ Numeral.digitLimit) :
    (q.limited size before).tail = .ok (tail ++ Guard.limits size before) := by
  have none_ (keyword : String) : bound keyword .null = .ok "" := rfl
  simp only [Select.tail, free, free', none_] at written
  obtain rfl := Except.ok.inj written
  simp only [Select.tail, limited, bound_natCast _ short, bound_natCast _ short']
  refine congrArg Except.ok ?_
  simp [Guard.limits, String.append_assoc]

theorem reads_of_body {f : Fragment} (written : q.body = .ok f) :
    "SELECT".toList <+: f.text.toList := by
  obtain ⟨columns, -, written⟩ := ok_of_bind written
  obtain ⟨grouping, -, written⟩ := ok_of_bind written
  obtain rfl := Except.ok.inj written
  rw [text_bodyOf, heading]
  simp

end Select

/-- What may be sent without limits may be sent with them, if they can be written. -/
theorem Statement.checked_limited {s : Statement} {context : String} {f : Fragment}
    (passed : s.checked context = .ok f) (free : s.select.limit = .null)
    (free' : s.select.offset = .null) {size before : Nat}
    (short : (Nat.toDigits 10 size).length ≤ Numeral.digitLimit)
    (short' : (Nat.toDigits 10 before).length ≤ Numeral.digitLimit) :
    checked { s with select := s.select.limited size before } context =
      .ok ⟨f.text ++ Guard.limits size before, f.values⟩ := by
  rw [checked_eq_ok_iff_readOnly] at passed ⊢
  obtain ⟨compiled, readOnly⟩ := passed
  obtain ⟨body, own, compiled⟩ := ok_of_bind compiled
  obtain ⟨branches, others, compiled⟩ := ok_of_bind compiled
  obtain ⟨tail, last, compiled⟩ := ok_of_bind compiled
  obtain rfl := Except.ok.inj compiled
  have reads : "SELECT".toList <+: body.text.toList := Select.reads_of_body own
  refine ⟨?_, readOnly.limited ?_ size before⟩
  · have same : (s.select.limited size before).body = .ok body := own
    simp only [compile, same, others, Select.tail_limited free free' last short short']
    refine congrArg Except.ok (Fragment.mk.injEq .. ▸ ⟨?_, ?_⟩)
    · simp [String.append_assoc]
    · simp
  · simp only [Fragment.text_append, String.toList_append, List.append_assoc]
    exact reads.trans (List.prefix_append _ _)

end Sql

end Relata
