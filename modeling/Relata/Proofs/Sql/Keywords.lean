import Mathlib.Data.List.Infix
import Mathlib.Data.List.SplitBy
import Relata.Proofs.Sql.Guarded

/-!
The guard as a filter on words. A text is cut into pieces where a word begins or ends, so that each
piece is a run of word characters, as long as it can be, or what stands between two of them. A
keyword of one word stands in the text if it is one of the runs, a keyword of two words if it is two
of them with a single blank in between, case left out in either. Main statement: the guard refuses
exactly the texts that hold a semicolon or in which a keyword stands so, and names the semicolon
before any keyword and of the keywords the first one in the order of the list.
-/

namespace Relata

namespace Text

/-- The small letter that a character counts as where case makes no difference; a character that is
no form of a letter of the keywords counts as itself. -/
def folded (c : Char) : Char :=
  if c.toNat < 0x80 then c.toLower
  else if c.toNat = 0x17f then 's'
  else if c.toNat = 0x212a then 'k'
  else if c.toNat = 0x130 ∨ c.toNat = 0x131 then 'i'
  else c

/-- What holds of each of the first characters by number holds of each that is one of them. -/
theorem forall_ascii {P : Char → Prop} (h : ∀ n < 0x80, P (Char.ofNat n)) {c : Char}
    (small : c.toNat < 0x80) : P c := by
  have own := h c.toNat small
  rwa [Char.ofNat_toNat] at own

theorem isWord_folded (c : Char) : isWord (folded c) = isWord c := by
  have special : isWordCode 0x17f ∧ isWordCode 0x212a ∧ isWordCode 0x130 ∧ isWordCode 0x131 := by
    decide +kernel
  unfold folded
  split_ifs with small s k i
  · exact forall_ascii (P := fun c => isWord c.toLower = isWord c) (by decide +kernel) small
  · rw [isWord, isWord, s, special.1]
    decide
  · rw [isWord, isWord, k, special.2.1]
    decide
  · rcases i with i | i
    · rw [isWord, isWord, i, special.2.2.1]
      decide
    · rw [isWord, isWord, i, special.2.2.2]
      decide
  · rfl

/-- Nothing but a blank counts as one. -/
theorem eq_blank_of_folded {c : Char} (blank : folded c = ' ') : c = ' ' := by
  unfold folded at blank
  split_ifs at blank with small
  · exact forall_ascii (P := fun c => c.toLower = ' ' → c = ' ') (by decide +kernel) small blank
  · cases blank
  · cases blank
  · cases blank
  · exact blank

/-- The pieces of a text: the longest runs of word characters, and what stands between them. -/
def runs (text : List Char) : List (List Char) := text.splitBy fun a b => isWord a == isWord b

theorem flatten_runs (text : List Char) : (runs text).flatten = text := List.flatten_splitBy _ text

/-- Texts are cut apart from each other where a word begins or ends between them. -/
theorem runs_append {before after : List Char}
    (edge : ∀ x ∈ before.getLast?, ∀ y ∈ after.head?, isWord x ≠ isWord y) :
    runs (before ++ after) = runs before ++ runs after := by
  apply List.splitBy_append
  intro x hx y hy
  simpa using edge x hx y hy

/-- Case does not matter for where a text is cut. -/
theorem runs_map_folded (text : List Char) :
    runs (text.map folded) = (runs text).map (·.map folded) := by
  have same (a b : Char) : (isWord (folded a) == isWord (folded b)) = (isWord a == isWord b) := by
    rw [isWord_folded, isWord_folded]
  unfold runs
  rw [List.splitBy_eq_iff]
  refine ⟨?_, ?_, ?_, ?_⟩
  · rw [← List.map_flatten, List.flatten_splitBy]
  · simp [List.nil_notMem_splitBy]
  · intro piece there
    obtain ⟨run, own, rfl⟩ := List.mem_map.mp there
    rw [List.isChain_map]
    simpa only [same] using List.isChain_of_mem_splitBy own
  · rw [List.isChain_map]
    apply (List.isChain_getLast_head_splitBy _ text).imp
    rintro a b ⟨ha, hb, apart⟩
    refine ⟨by simpa using ha, by simpa using hb, ?_⟩
    rw [List.getLast_map, List.head_map, same]
    exact apart

/-- Between pieces that stand beside each other a word begins or ends. -/
theorem edge_of_runs {text : List Char} {before after : List (List Char)}
    (cut : before ++ after <:+: runs text) :
    ∀ x ∈ before.flatten.getLast?, ∀ y ∈ after.flatten.head?, isWord x ≠ isWord y := by
  have piece {run : List Char} (own : run ∈ before ++ after) : run ≠ [] :=
    List.ne_nil_of_mem_splitBy (cut.subset own)
  have chain := List.IsChain.infix (List.isChain_getLast_head_splitBy _ text) cut
  rcases before.eq_nil_or_concat with rfl | ⟨earlier, a, rfl⟩
  · simp
  cases after with
  | nil => simp
  | cons b later =>
    have ha : a ≠ [] := piece (by simp)
    have hb : b ≠ [] := piece (by simp)
    rw [List.concat_append, List.isChain_append_cons_cons] at chain
    obtain ⟨-, ⟨_, _, apart⟩, -⟩ := chain
    intro x hx y hy
    simp only [List.concat_eq_append, List.flatten_append, List.flatten_singleton,
      List.getLast?_append_of_ne_nil _ ha, List.getLast?_eq_getLast_of_ne_nil ha,
      Option.mem_some_iff] at hx
    simp only [List.flatten_cons, List.head?_append_of_ne_nil _ hb, List.head?_eq_some_head hb,
      Option.mem_some_iff] at hy
    subst hx hy
    simpa using apart

end Text

namespace Guard

open Text (folded runs)

/-- The forms of a letter are the characters that count as it. -/
theorem isFormOf_iff {letter c : Char} (ascii : letter.toNat < 0x80) :
    isFormOf letter c = true ↔ folded c = letter := by
  unfold isFormOf folded
  by_cases small : c.toNat < 0x80
  · simp [small]
  · have other : c ≠ letter := by
      rintro rfl
      exact small ascii
    simp only [small, if_false, Bool.or_eq_true, Bool.and_eq_true, beq_iff_eq]
    split_ifs with s k i
    · simp [s, @eq_comm _ 's']
    · simp [k, @eq_comm _ 'k']
    · rcases i with i | i <;> simp [i, @eq_comm _ 'i']
    · simp only [s, k, i, other, and_false, or_false]

theorem spelled_iff {keyword word : List Char} (ascii : ∀ letter ∈ keyword, letter.toNat < 0x80) :
    List.Forall₂ (fun letter c => isFormOf letter c = true) keyword word ↔
      word.map folded = keyword := by
  induction keyword generalizing word with
  | nil => simp [List.forall₂_nil_left_iff]
  | cons letter keyword ih =>
    have own : letter.toNat < 0x80 := ascii letter List.mem_cons_self
    have others : ∀ l ∈ keyword, l.toNat < 0x80 := fun l there => ascii l (List.mem_cons_of_mem _ there)
    cases word with
    | nil => simp
    | cons c word => simp [isFormOf_iff own, ih others]

/-- A text that begins and ends with word characters, as keywords do. -/
structure Worded (keyword : List Char) : Prop where
  ascii : ∀ letter ∈ keyword, letter.toNat < 0x80
  begins : keyword.head?.any Text.isWord = true
  ends : keyword.getLast?.any Text.isWord = true

theorem Worded.forms {keyword word : List Char} (h : Worded keyword)
    (spelled : word.map folded = keyword) :
    word.head?.any Text.isWord = true ∧ word.getLast?.any Text.isWord = true := by
  subst spelled
  have same : (fun c => Text.isWord (folded c)) = Text.isWord := funext Text.isWord_folded
  constructor
  · simpa [Option.any_map, Function.comp_def, same] using h.begins
  · simpa [Option.any_map, Function.comp_def, same] using h.ends

/-- Where a word begins, no word character stands before it. -/
theorem edge_before_word {x? y? : Option Char} (word : y?.any Text.isWord = true) :
    (∀ x ∈ x?, ∀ y ∈ y?, Text.isWord x ≠ Text.isWord y) ↔ x?.any Text.isWord = false := by
  cases x? <;> cases y? <;> simp_all

/-- Where a word ends, no word character stands behind it. -/
theorem edge_behind_word {x? y? : Option Char} (word : x?.any Text.isWord = true) :
    (∀ x ∈ x?, ∀ y ∈ y?, Text.isWord x ≠ Text.isWord y) ↔ y?.any Text.isWord = false := by
  cases x? <;> cases y? <;> simp_all [@eq_comm Bool true]

/-- A keyword occurs in a text where a stretch of the pieces of the text spells out the pieces of the
keyword. -/
theorem occurs_iff_runs {keyword text : List Char} (h : Worded keyword) :
    Occurs keyword text ↔
      ∃ stretch, stretch <:+: runs text ∧ stretch.map (·.map folded) = runs keyword := by
  constructor
  · rintro ⟨before, word, after, rfl, spelled, free, ends⟩
    rw [spelled_iff h.ascii] at spelled
    obtain ⟨first, last⟩ := h.forms spelled
    have some_ : word ≠ [] := by
      rintro rfl
      simp at last
    have cut : runs (before ++ word ++ after) = runs before ++ runs word ++ runs after := by
      rw [Text.runs_append, Text.runs_append]
      · exact (edge_before_word first).mpr free
      · rw [List.getLast?_append_of_ne_nil _ some_]
        exact (edge_behind_word last).mpr ends
    refine ⟨runs word, ⟨runs before, runs after, cut.symm⟩, ?_⟩
    rw [← Text.runs_map_folded, spelled]
  · rintro ⟨stretch, ⟨before, after, cut⟩, spelled⟩
    have whole : text = before.flatten ++ stretch.flatten ++ after.flatten := by
      rw [← List.flatten_append, ← List.flatten_append, cut, Text.flatten_runs]
    have spelled : stretch.flatten.map folded = keyword := by
      rw [List.map_flatten, spelled, Text.flatten_runs]
    obtain ⟨first, last⟩ := h.forms spelled
    have front : before ++ stretch <:+: runs text := ⟨[], after, cut⟩
    have back : stretch ++ after <:+: runs text := ⟨before, [], by simpa using cut⟩
    refine ⟨_, _, _, whole, (spelled_iff h.ascii).mpr spelled, ?_, ?_⟩
    · exact (edge_before_word first).mp (Text.edge_of_runs front)
    · exact (edge_behind_word last).mp (Text.edge_of_runs back)

/-- A keyword: a word, or two words with a blank between them. -/
inductive Keyword where
  | word (word : String)
  | pair (first second : String)

namespace Keyword

/-- The keyword as it is written. -/
def written : Keyword → String
  | word w => w
  | pair first second => first ++ " " ++ second

/-- The keyword stands in a text, case left out: the word is one of the runs of word characters, or
the two words are two of them with a single blank between them. -/
def StandsIn (text : List Char) : Keyword → Prop
  | word w => ∃ run ∈ runs text, run.map folded = w.toList
  | pair first second => ∃ run run', [run, [' '], run'] <:+: runs text ∧
      run.map folded = first.toList ∧ run'.map folded = second.toList

end Keyword

/-- The keywords that write, in the order in which they are reported. -/
def keywords : List Keyword :=
  [.word "insert", .word "update", .word "delete", .word "replace", .word "create", .word "drop",
    .word "alter", .word "truncate", .word "grant", .word "revoke", .pair "load" "data",
    .pair "into" "outfile"]

theorem written_keywords : keywords.map Keyword.written = forbidden := by decide

namespace Keyword

/-- The pieces that the keyword is cut into. -/
def pieces : Keyword → List (List Char)
  | word w => [w.toList]
  | pair first second => [first.toList, [' '], second.toList]

/-- A keyword stands in a text where a stretch of the pieces of the text spells out its own. -/
theorem standsIn_iff {k : Keyword} {text : List Char} :
    k.StandsIn text ↔ ∃ stretch, stretch <:+: runs text ∧ stretch.map (·.map folded) = k.pieces := by
  cases k with
  | word w => simp [StandsIn, pieces, List.map_eq_singleton_iff, List.singleton_infix_iff]
  | pair first second =>
    constructor
    · rintro ⟨run, run', there, spelled, spelled'⟩
      refine ⟨_, there, ?_⟩
      have blank : [' '].map folded = [' '] := by decide
      simp only [List.map_cons, List.map_nil, spelled, spelled', pieces, blank]
    · rintro ⟨stretch, there, spelled⟩
      obtain ⟨run, rest, rfl, own, spelled⟩ := List.map_eq_cons_iff.mp spelled
      obtain ⟨between, rest, rfl, blank, spelled⟩ := List.map_eq_cons_iff.mp spelled
      obtain ⟨run', rfl, own'⟩ := List.map_eq_singleton_iff.mp spelled
      obtain ⟨c, rfl, counts⟩ := List.map_eq_singleton_iff.mp blank
      obtain rfl := Text.eq_blank_of_folded counts
      exact ⟨run, run', there, own, own'⟩

end Keyword

theorem runs_written : ∀ k ∈ keywords, runs k.written.toList = k.pieces := by decide +kernel

theorem worded_written : ∀ k ∈ keywords, Worded k.written.toList := by
  have each : keywords.all (fun k => k.written.toList.all (·.toNat < 0x80) &&
      k.written.toList.head?.any Text.isWord && k.written.toList.getLast?.any Text.isWord) = true := by
    decide +kernel
  intro k there
  have own := List.all_eq_true.mp each k there
  simp only [Bool.and_eq_true, List.all_eq_true, decide_eq_true_eq] at own
  obtain ⟨⟨ascii, begins⟩, ends⟩ := own
  exact ⟨ascii, begins, ends⟩

/-- The guard finds the keywords that stand in the text. -/
theorem occurs_written_iff {k : Keyword} (there : k ∈ keywords) {text : List Char} :
    occurs k.written.toList text = true ↔ k.StandsIn text := by
  have worded := worded_written k there
  have spells : k.written.toList ≠ [] := by
    intro none
    simpa [none] using worded.begins
  rw [occurs_iff spells, occurs_iff_runs worded, runs_written k there, Keyword.standsIn_iff]

/-- The reason where there is no semicolon: the first of the keywords that is found. -/
theorem reason?_of_single {text : List Char} (single : ';' ∉ text) :
    reason? text = (keywords.find? fun k => occurs k.written.toList text).map fun k =>
      s!"disallowed keyword `{k.written}`" := by
  unfold reason?
  rw [← written_keywords, List.find?_map]
  simp [single, Function.comp_def]

/-- The guard refuses a text exactly if it holds a semicolon or a keyword stands in it as a run of
word characters, or as two of them with a single blank in between. It gives the semicolon as the
reason if there is one, and the first keyword of the list that stands in the text if there is
none. -/
theorem checkPiece_filters_words (text context : String) :
    ((∃ e, checkPiece text context = .error e) ↔
      ';' ∈ text.toList ∨ ∃ k ∈ keywords, k.StandsIn text.toList) ∧
    (';' ∈ text.toList →
      checkPiece text context = .error (.readOnly context "semicolons are not allowed")) ∧
    ∀ before k after, keywords = before ++ k :: after → ';' ∉ text.toList →
      k.StandsIn text.toList → (∀ earlier ∈ before, ¬ earlier.StandsIn text.toList) →
        checkPiece text context = .error (.readOnly context s!"disallowed keyword `{k.written}`") := by
  unfold checkPiece
  refine ⟨?_, ?_, ?_⟩
  · by_cases single : ';' ∈ text.toList
    · simp [reason?, single]
    · have refused : (∃ k ∈ keywords, k.StandsIn text.toList) ↔ reason? text.toList ≠ none := by
        rw [reason?_of_single single, Ne, Option.map_eq_none_iff, List.find?_eq_none]
        push Not
        exact exists_congr fun k => and_congr_right fun there => (occurs_written_iff there).symm
      simp only [single, false_or, refused]
      cases reason? text.toList <;> simp
  · intro there
    simp [reason?, there]
  · intro before k after order single stands first
    have found : (keywords.find? fun k => occurs k.written.toList text.toList) = some k := by
      have own : k ∈ keywords := by simp [order]
      rw [List.find?_eq_some_iff_append]
      refine ⟨(occurs_written_iff own).mpr stands, before, after, order, fun earlier there => ?_⟩
      have own' : earlier ∈ keywords := by simp [order, there]
      simpa [← occurs_written_iff own'] using first earlier there
    rw [reason?_of_single single, found]
    rfl

end Guard

end Relata
