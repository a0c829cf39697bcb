import Mathlib.Data.List.DropRight
import Relata.Proofs.Sql.Keywords

/-!
White space and the guard. Two texts are respaced of each other if they differ only in what white
space stands where some stands; squeezing the white space brings both to one text, and a text is cut
into its words where that one is. So semicolons, keywords of one word and the word that a statement
begins with are found in both or in neither, but a keyword of two words is found only where a single
blank stands between them. Main statement: how a text is spaced makes no difference to the guard
exactly if no two words of a keyword stand in it with nothing but white space between them, or if it
is refused for something else in any case.
-/

namespace Relata

namespace Text

/-- The texts differ only in that stretches of white space are replaced by others. -/
inductive Respaced : List Char → List Char → Prop
  | nil : Respaced [] []
  | same (c : Char) {s t : List Char} : Respaced s t → Respaced (c :: s) (c :: t)
  | gap {a b s t : List Char} : a ≠ [] → b ≠ [] → (∀ c ∈ a, isBlank c) → (∀ c ∈ b, isBlank c) →
    Respaced s t → Respaced (a ++ s) (b ++ t)

/-- The text with one blank for each stretch of white space; `inGap` tells whether white space
stands just before it. -/
def squeezeFrom : Bool → List Char → List Char
  | _, [] => []
  | inGap, c :: rest =>
    if isBlank c then (if inGap then [] else [' ']) ++ squeezeFrom true rest
    else c :: squeezeFrom false rest

def squeezed (text : List Char) : List Char := squeezeFrom false text

/-- The text with a tabulator for each character of white space. -/
def tabbed (text : List Char) : List Char := text.map fun c => if isBlank c then '\t' else c

theorem blank_tab : ∀ c ∈ ['\t'], isBlank c := List.forall_mem_singleton.mpr (by decide)

theorem blank_space : ∀ c ∈ [' '], isBlank c := List.forall_mem_singleton.mpr (by decide)

theorem respaced_tabbed (text : List Char) : Respaced text (tabbed text) := by
  induction text with
  | nil => exact .nil
  | cons c rest ih =>
    by_cases blank : isBlank c = true
    · have own : tabbed (c :: rest) = ['\t'] ++ tabbed rest := by simp [tabbed, blank]
      rw [own]
      exact Respaced.gap (a := [c]) (by simp) (by simp) (by simpa) blank_tab ih
    · have own : tabbed (c :: rest) = c :: tabbed rest := by simp [tabbed, blank]
      rw [own]
      exact .same c ih

/-- By induction on the text, together with what becomes of it behind more white space. -/
theorem respaced_squeezed (text : List Char) : Respaced text (squeezed text) := by
  suffices Respaced text (squeezeFrom false text) ∧ ∀ a ≠ [], (∀ c ∈ a, isBlank c) →
      Respaced (a ++ text) ([' '] ++ squeezeFrom true text) from this.1
  induction text with
  | nil =>
    exact ⟨.nil, fun a some_ blank => Respaced.gap some_ (by simp) blank blank_space .nil⟩
  | cons c rest ih =>
    by_cases own : isBlank c = true
    · refine ⟨?_, fun a _ blank => ?_⟩
      · simpa [squeezeFrom, own] using ih.2 [c] (by simp) (by simpa using own)
      · have longer : ∀ d ∈ a ++ [c], isBlank d :=
          List.forall_mem_append.mpr ⟨blank, by simpa using own⟩
        simpa [squeezeFrom, own] using ih.2 (a ++ [c]) (by simp) longer
    · have stays : Respaced (c :: rest) (c :: squeezeFrom false rest) := .same c ih.1
      refine ⟨by simpa [squeezeFrom, own] using stays, fun a some_ blank => ?_⟩
      simpa [squeezeFrom, own] using
        Respaced.gap (b := [' ']) some_ (by simp) blank blank_space stays

theorem blank_notMem_tabbed (text : List Char) : ' ' ∉ tabbed text := by
  intro there
  obtain ⟨c, -, own⟩ := List.mem_map.mp there
  split at own
  · cases own
  · next other => exact other (own ▸ by decide)

theorem squeezeFrom_blank {a s : List Char} (some_ : a ≠ []) (blank : ∀ c ∈ a, isBlank c)
    (inGap : Bool) :
    squeezeFrom inGap (a ++ s) = (if inGap then [] else [' ']) ++ squeezeFrom true s := by
  induction a generalizing inGap with
  | nil => exact absurd rfl some_
  | cons c a ih =>
    have own : isBlank c = true := blank c (.head _)
    have others : ∀ d ∈ a, isBlank d := fun d there => blank d (.tail _ there)
    cases a with
    | nil => simp [squeezeFrom, own]
    | cons d a =>
      rw [List.cons_append, squeezeFrom, if_pos own, ih (by simp) others]
      simp

/-- Texts that are respaced of each other come to the same if their white space is squeezed. -/
theorem Respaced.squeezeFrom_eq {s t : List Char} (h : Respaced s t) (inGap : Bool) :
    squeezeFrom inGap s = squeezeFrom inGap t := by
  induction h generalizing inGap with
  | nil => rfl
  | same c _ ih => simp only [squeezeFrom, ih]
  | gap ha hb blank blank' _ ih => rw [squeezeFrom_blank ha blank, squeezeFrom_blank hb blank', ih]

theorem Respaced.squeezed_eq {s t : List Char} (h : Respaced s t) : squeezed s = squeezed t :=
  h.squeezeFrom_eq false

theorem squeezeFrom_true {s : List Char} (solid : ∀ c ∈ s.head?, isBlank c = false) :
    squeezeFrom true s = squeezeFrom false s := by
  cases s with
  | nil => rfl
  | cons c rest =>
    have own : isBlank c = false := solid c rfl
    simp [squeezeFrom, own]

/-- Texts that do not meet in white space are squeezed each by itself. -/
theorem squeezed_append {s t : List Char}
    (edge : ∀ x ∈ s.getLast?, ∀ y ∈ t.head?, isBlank x = false ∨ isBlank y = false) :
    squeezed (s ++ t) = squeezed s ++ squeezed t := by
  suffices ∀ inGap, (s = [] → inGap = false) →
      squeezeFrom inGap (s ++ t) = squeezeFrom inGap s ++ squeezeFrom false t from
    this false fun _ => rfl
  induction s with
  | nil =>
    intro inGap first
    rw [first rfl]
    rfl
  | cons c rest ih =>
    intro inGap _
    cases rest with
    | nil =>
      have own := edge c rfl
      by_cases blank : isBlank c = true
      · have solid : ∀ y ∈ t.head?, isBlank y = false :=
          fun y there => by simpa [blank] using own y there
        simp [squeezeFrom, blank, squeezeFrom_true solid]
      · simp [squeezeFrom, blank]
    | cons d rest =>
      have step (b : Bool) := ih (by simpa using edge) b (by simp)
      rw [List.cons_append, squeezeFrom, squeezeFrom, step, step]
      split <;> simp

theorem squeezed_eq_nil_iff {s : List Char} : squeezed s = [] ↔ s = [] := by
  cases s with
  | nil => simp [squeezed, squeezeFrom]
  | cons c rest => by_cases blank : isBlank c = true <;> simp [squeezed, squeezeFrom, blank]

/-- A character of a squeezed text was there, or it is a blank in the place of white space. -/
theorem mem_squeezed {s : List Char} {c : Char} (there : c ∈ squeezed s) :
    c ∈ s ∨ c = ' ' ∧ ∃ d ∈ s, isBlank d = true := by
  suffices ∀ inGap, c ∈ squeezeFrom inGap s → c ∈ s ∨ c = ' ' ∧ ∃ d ∈ s, isBlank d = true from
    this false there
  clear there
  induction s with
  | nil => simp [squeezeFrom]
  | cons d rest ih =>
    intro inGap there
    rw [squeezeFrom] at there
    split at there
    · next blank =>
      rcases List.mem_append.mp there with own | later
      · cases inGap
        · exact .inr ⟨by simpa using own, d, .head _, blank⟩
        · cases own
      · rcases ih _ later with old | ⟨rfl, e, own, blank'⟩
        · exact .inl (.tail _ old)
        · exact .inr ⟨rfl, e, .tail _ own, blank'⟩
    · rcases List.mem_cons.mp there with rfl | later
      · exact .inl (.head _)
      · rcases ih _ later with old | ⟨rfl, e, own, blank'⟩
        · exact .inl (.tail _ old)
        · exact .inr ⟨rfl, e, .tail _ own, blank'⟩

/-- What is no white space stays. -/
theorem mem_squeezed_of_mem {s : List Char} {c : Char} (there : c ∈ s) (solid : isBlank c = false) :
    c ∈ squeezed s := by
  suffices ∀ inGap, c ∈ squeezeFrom inGap s from this false
  induction s with
  | nil => cases there
  | cons d rest ih =>
    intro inGap
    rw [squeezeFrom]
    rcases List.mem_cons.mp there with rfl | later
    · simp [solid]
    · split
      · exact List.mem_append_right _ (ih later true)
      · exact .tail _ (ih later false)

/-- A text without white space is squeezed already. -/
theorem squeezed_of_solid {s : List Char} (solid : ∀ c ∈ s, isBlank c = false) :
    squeezed s = s := by
  unfold squeezed
  induction s with
  | nil => rfl
  | cons c rest ih =>
    have own : isBlank c = false := solid c (.head _)
    simp [squeezeFrom, own, ih fun d there => solid d (.tail _ there)]

theorem solid_of_blank_notMem {s : List Char} (none_ : ' ' ∉ squeezed s) :
    ∀ c ∈ s, isBlank c = false := by
  suffices ∀ inGap, (inGap = true → False) → ' ' ∉ squeezeFrom inGap s →
      ∀ c ∈ s, isBlank c = false from this false (by simp) none_
  clear none_
  induction s with
  | nil => simp
  | cons c rest ih =>
    intro inGap outside none_
    rw [squeezeFrom] at none_
    split at none_
    · cases inGap
      · simp at none_
      · exact absurd rfl outside
    · next solid =>
      have own : isBlank c = false := by simpa using solid
      exact List.forall_mem_cons.mpr ⟨own, ih false (by simp) fun there => none_ (.tail _ there)⟩

/-- The code points of white space. -/
def blankCodes : List Nat :=
  [0x9, 0xa, 0xb, 0xc, 0xd, 0x1c, 0x1d, 0x1e, 0x1f, 0x20, 0x85, 0xa0, 0x1680, 0x2000, 0x2001,
    0x2002, 0x2003, 0x2004, 0x2005, 0x2006, 0x2007, 0x2008, 0x2009, 0x200a, 0x2028, 0x2029, 0x202f,
    0x205f, 0x3000]

/-- What holds of each character of white space by its code point holds of all of them. -/
theorem forall_blank {P : Char → Prop} (h : ∀ n ∈ blankCodes, P (Char.ofNat n)) {c : Char}
    (blank : isBlank c = true) : P c := by
  have listed : c.toNat ∈ blankCodes := by
    simp only [isBlank, isSpace, Bool.or_eq_true, Bool.and_eq_true, decide_eq_true_eq, beq_iff_eq]
      at blank
    simp only [blankCodes, List.mem_cons, List.not_mem_nil, or_false]
    omega
  have own := h c.toNat listed
  rwa [Char.ofNat_toNat] at own

/-- White space is no part of a word, has no case, and stands for itself in small letters. -/
theorem plain_of_blank {c : Char} (blank : isBlank c = true) :
    isWord c = false ∧ isPassed c = false ∧ isCased c = false ∧ lowerChar c = [c] :=
  forall_blank (P := fun c => isWord c = false ∧ isPassed c = false ∧ isCased c = false ∧
    lowerChar c = [c]) (by decide +kernel) blank

theorem solid_of_word {c : Char} (word : isWord c = true) : isBlank c = false := by
  by_contra blank
  rw [Bool.not_eq_false] at blank
  rw [(plain_of_blank blank).1] at word
  cases word

/-- A piece of a text has word characters only, or none. -/
theorem uniform_of_mem_runs {text run : List Char} (own : run ∈ runs text) :
    ∃ b, ∀ c ∈ run, isWord c = b := by
  have chain : run.IsChain fun a b => (isWord a == isWord b) = true :=
    List.isChain_of_mem_splitBy own
  cases run with
  | nil => exact ⟨true, List.forall_mem_nil _⟩
  | cons c rest =>
    refine ⟨isWord c, ?_⟩
    have same : ((c :: rest).map isWord).IsChain (· = ·) := by
      rw [List.isChain_map]
      exact chain.imp fun _ _ same => by simpa using same
    obtain ⟨first, others⟩ := List.pairwise_cons.mp same.pairwise
    exact List.forall_mem_cons.mpr ⟨rfl, fun d there => (first _ (List.mem_map_of_mem there)).symm⟩

theorem uniform_squeezed {run : List Char} {b : Bool} (uniform : ∀ c ∈ run, isWord c = b) :
    ∀ c ∈ squeezed run, isWord c = b := by
  intro c there
  rcases mem_squeezed there with old | ⟨rfl, d, own, blank⟩
  · exact uniform c old
  · rw [← uniform d own, (plain_of_blank blank).1]
    decide

/-- A text is cut into its pieces where it is cut once its white space is squeezed. -/
theorem runs_squeezed (text : List Char) : runs (squeezed text) = (runs text).map squeezed := by
  have whole : ∀ later, later <:+ runs text →
      squeezed later.flatten = (later.map squeezed).flatten := by
    intro later behind
    induction later with
    | nil => rfl
    | cons run later ih =>
      have cut : [run] ++ later <:+: runs text := behind.isInfix
      have inner : later <:+ runs text := (List.suffix_cons _ _).trans behind
      rw [List.flatten_cons, List.map_cons, List.flatten_cons, ← ih inner]
      refine squeezed_append fun x hx y hy => ?_
      have apart := edge_of_runs cut x (by simpa using hx) y hy
      by_contra both
      simp only [not_or, Bool.not_eq_false] at both
      exact apart ((plain_of_blank both.1).1.trans (plain_of_blank both.2).1.symm)
  rw [runs, List.splitBy_eq_iff]
  refine ⟨?_, ?_, ?_, ?_⟩
  · rw [← whole _ (List.suffix_refl _), flatten_runs]
  · intro empty
    obtain ⟨run, own, none_⟩ := List.mem_map.mp empty
    rw [squeezed_eq_nil_iff] at none_
    exact List.nil_notMem_splitBy _ _ (none_ ▸ own)
  · intro piece there
    obtain ⟨run, own, rfl⟩ := List.mem_map.mp there
    obtain ⟨b, uniform⟩ := uniform_of_mem_runs own
    refine (List.pairwise_of_forall_mem_list fun x hx y hy => ?_).isChain
    simp [uniform_squeezed uniform x hx, uniform_squeezed uniform y hy]
  · rw [List.isChain_map]
    refine (List.isChain_getLast_head_splitBy _ text).imp_of_mem_imp ?_
    rintro a b own own' ⟨ha, hb, apart⟩
    obtain ⟨x, before⟩ := uniform_of_mem_runs own
    obtain ⟨y, after⟩ := uniform_of_mem_runs own'
    refine ⟨by simpa [squeezed_eq_nil_iff], by simpa [squeezed_eq_nil_iff], ?_⟩
    rw [uniform_squeezed before _ (List.getLast_mem _), uniform_squeezed after _ (List.head_mem _)]
    rwa [before _ (List.getLast_mem _), after _ (List.head_mem _)] at apart

/-- What is between two words in the text once its white space is squeezed is a single blank exactly
if it was white space. -/
theorem squeezed_eq_blank_iff {gap : List Char} (some_ : gap ≠ []) :
    squeezed gap = [' '] ↔ ∀ c ∈ gap, isBlank c := by
  constructor
  · intro own c there
    by_contra solid
    have stays := mem_squeezed_of_mem there (by simpa using solid)
    rw [own, List.mem_singleton] at stays
    exact solid (stays ▸ by decide)
  · intro blank
    simpa [squeezed, squeezeFrom] using squeezeFrom_blank (s := []) some_ blank false

/-- A word is spelled by a piece exactly if it is spelled by the piece squeezed. -/
theorem spelled_squeezed {word run : List Char} (worded : ∀ c ∈ word, isWord c = true) :
    (squeezed run).map folded = word ↔ run.map folded = word := by
  have solid {piece : List Char} (spelled : piece.map folded = word) :
      ∀ c ∈ piece, isBlank c = false := by
    intro c there
    apply solid_of_word
    rw [← isWord_folded]
    exact worded _ (spelled ▸ List.mem_map_of_mem there)
  constructor
  · intro spelled
    have none_ : ' ' ∉ squeezed run := fun there => absurd (solid spelled ' ' there) (by decide)
    rwa [squeezed_of_solid (solid_of_blank_notMem none_)] at spelled
  · intro spelled
    rwa [squeezed_of_solid (solid spelled)]

/-- What begins a text up to a character that it does not hold itself begins what stands before that
character. -/
theorem prefix_append_cons_iff {front s rest : List Char} {c : Char} (other : c ∉ front) :
    front <+: s ++ c :: rest ↔ front <+: s := by
  constructor
  · intro begins
    by_cases short : front.length ≤ s.length
    · exact List.prefix_of_prefix_length_le begins (List.prefix_append _ _) short
    · have longer : s ++ [c] <+: front :=
        List.prefix_of_prefix_length_le (by simp) begins (by simp; omega)
      exact absurd (longer.subset (by simp)) other
  · exact fun begins => begins.trans (List.prefix_append _ _)

/-- White space ends a word, so a text is put in small letters up to it by itself. -/
theorem lowerFrom_append_blank {s rest : List Char} {c : Char} (blank : isBlank c = true)
    (inWord : Bool) :
    lowerFrom inWord (s ++ c :: rest) = lowerFrom inWord s ++ c :: lowerFrom false rest := by
  obtain ⟨-, passed, cased, small⟩ := plain_of_blank blank
  have noSigma : c.toNat ≠ 0x3a3 :=
    forall_blank (P := fun c => c.toNat ≠ 0x3a3) (by decide +kernel) blank
  induction s generalizing inWord with
  | nil => simp [lowerFrom, noSigma, small, passed, cased]
  | cons d s ih =>
    have ends : goesOn (s ++ c :: rest) = goesOn s := by
      rw [goesOn, goesOn, List.dropWhile_append]
      by_cases none_ : s.dropWhile isPassed = []
      · simp [none_, passed, cased]
      · rw [if_neg (by simpa using none_), List.head?_append_of_ne_nil _ none_]
    rw [List.cons_append, lowerFrom, lowerFrom, ends, ih, List.append_assoc]

/-- What stands in front of a text up to the next white space. -/
def firstWord (text : List Char) : List Char := (text.dropWhile isBlank).takeWhile (!isBlank ·)

theorem firstWord_squeezed (text : List Char) : firstWord (squeezed text) = firstWord text := by
  have front (inGap : Bool) :
      (squeezeFrom inGap text).dropWhile isBlank = squeezed (text.dropWhile isBlank) := by
    induction text generalizing inGap with
    | nil => rfl
    | cons c rest ih =>
      by_cases blank : isBlank c = true
      · have own : isBlank ' ' = true := by decide
        cases inGap <;> simp [squeezeFrom, blank, own, ih]
      · simp [squeezed, squeezeFrom, blank]
  have word (s : List Char) : (squeezed s).takeWhile (!isBlank ·) = s.takeWhile (!isBlank ·) := by
    unfold squeezed
    induction s with
    | nil => rfl
    | cons c rest ih =>
      by_cases blank : isBlank c = true
      · have own : isBlank ' ' = true := by decide
        simp [squeezeFrom, blank, own]
      · simp [squeezeFrom, blank, ih]
  rw [firstWord, squeezed, front, word, firstWord]

/-- Stripping leaves the first word. -/
theorem takeWhile_strip (text : List Char) :
    (strip text).takeWhile (!isBlank ·) = firstWord text := by
  suffices ∀ s : List Char,
      (s.rdropWhile isBlank).takeWhile (!isBlank ·) = s.takeWhile (!isBlank ·) from
    this (text.dropWhile isBlank)
  intro s
  induction s using List.reverseRecOn with
  | nil => rfl
  | append_singleton s c ih =>
    by_cases blank : isBlank c = true
    · rw [List.rdropWhile_concat_pos _ _ _ blank, ih, List.takeWhile_append]
      split
      · next whole => simp [(List.takeWhile_prefix _).eq_of_length whole, blank]
      · rfl
    · rw [List.rdropWhile_concat_neg _ _ _ blank]

/-- Whether a text begins with a word, put in small letters, is seen at its first word. -/
theorem prefix_lowerFrom_iff {word : List Char} (solid : ∀ c ∈ word, isBlank c = false)
    (text : List Char) :
    word <+: lowerFrom false text ↔ word <+: lowerFrom false (text.takeWhile (!isBlank ·)) := by
  have whole := List.takeWhile_append_dropWhile (p := (!isBlank ·)) (l := text)
  cases behind : text.dropWhile (!isBlank ·) with
  | nil => rw [behind, List.append_nil] at whole; rw [whole]
  | cons c rest =>
    have blank : isBlank c = true := by
      simpa [behind] using List.head?_dropWhile_not (!isBlank ·) text
    rw [behind] at whole
    conv_lhs => rw [← whole, lowerFrom_append_blank blank]
    refine prefix_append_cons_iff fun there => ?_
    rw [solid c there] at blank
    cases blank

end Text

namespace Guard

open Text (Respaced folded runs squeezed tabbed isBlank isWord)

namespace Keyword

/-- The words of the keyword have word characters only. -/
def worded : Keyword → Bool
  | word w => w.toList.all isWord
  | pair first second => first.toList.all isWord && second.toList.all isWord

/-- The two words of a keyword stand in a text with nothing but white space between them. -/
def SpacedIn (text : List Char) : Keyword → Prop
  | word _ => False
  | pair first second => ∃ run gap run', [run, gap, run'] <:+: runs text ∧
      (∀ c ∈ gap, isBlank c) ∧ run.map folded = first.toList ∧ run'.map folded = second.toList

/-- A keyword stands in a text whose white space is squeezed if it stood there as a word, or if it
is one of two words and nothing but white space stood between them. -/
theorem standsIn_squeezed {k : Keyword} (own : k.worded = true) {text : List Char} :
    k.StandsIn (squeezed text) ↔ (∃ w, k = word w ∧ k.StandsIn text) ∨ k.SpacedIn text := by
  cases k with
  | word w =>
    have spelled {run : List Char} : (squeezed run).map folded = w.toList ↔ run.map folded = w.toList :=
      Text.spelled_squeezed (List.all_eq_true.mp own)
    simp [StandsIn, SpacedIn, Text.runs_squeezed, spelled]
  | pair first second =>
    obtain ⟨own, own'⟩ := Bool.and_eq_true_iff.mp own
    have spelled {run : List Char} :
        (squeezed run).map folded = first.toList ↔ run.map folded = first.toList :=
      Text.spelled_squeezed (List.all_eq_true.mp own)
    have spelled' {run : List Char} :
        (squeezed run).map folded = second.toList ↔ run.map folded = second.toList :=
      Text.spelled_squeezed (List.all_eq_true.mp own')
    simp only [StandsIn, SpacedIn, Text.runs_squeezed, reduceCtorEq, false_and, exists_false,
      false_or]
    constructor
    · rintro ⟨run, run', ⟨before, after, cut⟩, first_, second_⟩
      obtain ⟨front', later, whole, cut', -⟩ := List.map_eq_append_iff.mp cut.symm
      obtain ⟨front, stretch, rfl, -, three⟩ := List.map_eq_append_iff.mp cut'
      obtain ⟨a, pair_, rfl, rfl, two⟩ := List.map_eq_cons_iff.mp three
      obtain ⟨gap, single, rfl, between, one⟩ := List.map_eq_cons_iff.mp two
      obtain ⟨b, rfl, rfl⟩ := List.map_eq_singleton_iff.mp one
      have there : [a, gap, b] <:+: runs text := ⟨front, later, whole.symm⟩
      have some_ : gap ≠ [] := List.ne_nil_of_mem_splitBy (there.subset (by simp))
      exact ⟨a, gap, b, there, (Text.squeezed_eq_blank_iff some_).mp between, spelled.mp first_,
        spelled'.mp second_⟩
    · rintro ⟨run, gap, run', there, blank, first_, second_⟩
      have some_ : gap ≠ [] := List.ne_nil_of_mem_splitBy (there.subset (by simp))
      refine ⟨squeezed run, squeezed run', ?_, spelled.mpr first_, spelled'.mpr second_⟩
      rw [← (Text.squeezed_eq_blank_iff some_).mpr blank]
      exact there.map squeezed

end Keyword

theorem worded_keywords : ∀ k ∈ keywords, k.worded = true := by decide +kernel

/-- A text that the guard refuses however it is spaced: it holds a semicolon or a keyword of one
word. -/
def Barred (text : List Char) : Prop :=
  ';' ∈ text ∨ ∃ w, .word w ∈ keywords ∧ (Keyword.word w).StandsIn text

/-- The guard passes a text that is not refused however it is spaced, unless a keyword of two words
stands in it with a single blank between them. -/
theorem reason?_eq_none_iff_standsIn {text : List Char} :
    reason? text = none ↔ ¬ Barred text ∧
      ∀ first second, .pair first second ∈ keywords → ¬ (Keyword.pair first second).StandsIn text := by
  by_cases single : ';' ∈ text
  · simp [reason?, Barred, single]
  · rw [reason?_of_single single, Option.map_eq_none_iff, List.find?_eq_none]
    have stands : ∀ k ∈ keywords, occurs k.written.toList text = true ↔ k.StandsIn text :=
      fun k there => occurs_written_iff there
    constructor
    · intro clean
      refine ⟨?_, fun first second there found => clean _ there ((stands _ there).mpr found)⟩
      rintro (there | ⟨w, there, found⟩)
      · exact single there
      · exact clean _ there ((stands _ there).mpr found)
    · rintro ⟨free, apart⟩ k there
      rw [stands k there]
      cases k with
      | word w => exact fun found => free (.inr ⟨w, there, found⟩)
      | pair first second => exact apart first second there

/-- Spacing makes no difference for what is refused however it is spaced. -/
theorem barred_squeezed {text : List Char} : Barred (squeezed text) ↔ Barred text := by
  refine or_congr ⟨fun there => ?_, fun there => Text.mem_squeezed_of_mem there (by decide)⟩
    (exists_congr fun w => and_congr_right fun there => ?_)
  · rcases Text.mem_squeezed there with old | ⟨blank, -⟩
    · exact old
    · cases blank
  · simp [Keyword.standsIn_squeezed (worded_keywords _ there), Keyword.SpacedIn]

/-- A text in which the words of a keyword stand with nothing but white space between them. -/
def Spaced (text : List Char) : Prop := ∃ k ∈ keywords, k.SpacedIn text

/-- Once its white space is squeezed, the guard finds in a text what it would find if any white
space could stand between the words of a keyword. -/
theorem reason?_squeezed_eq_none_iff {text : List Char} :
    reason? (squeezed text) = none ↔ ¬ Barred text ∧ ¬ Spaced text := by
  rw [reason?_eq_none_iff_standsIn, barred_squeezed]
  refine and_congr_right fun _ => ⟨?_, ?_⟩
  · rintro apart ⟨k, there, spaced⟩
    cases k with
    | word w => exact spaced
    | pair first second =>
      exact apart first second there
        ((Keyword.standsIn_squeezed (worded_keywords _ there)).mpr (.inr spaced))
  · intro apart first second there stands
    rcases (Keyword.standsIn_squeezed (worded_keywords _ there)).mp stands with ⟨w, ⟨⟩, -⟩ | spaced
    exact apart ⟨_, there, spaced⟩

/-- With a tabulator for each character of white space, no keyword of two words is found. -/
theorem reason?_tabbed_eq_none_iff {text : List Char} :
    reason? (tabbed text) = none ↔ ¬ Barred text := by
  have same : Barred (tabbed text) ↔ Barred text := by
    rw [← barred_squeezed, ← (Text.respaced_tabbed text).squeezed_eq, barred_squeezed]
  rw [reason?_eq_none_iff_standsIn, same, and_iff_left_iff_imp]
  rintro - first second - ⟨run, run', cut, -⟩
  apply Text.blank_notMem_tabbed text
  rw [← Text.flatten_runs (tabbed text)]
  exact List.mem_flatten.mpr ⟨[' '], cut.subset (by simp), .head _⟩

theorem barred_congr {text other : List Char} (respaced : Respaced text other) :
    Barred text ↔ Barred other := by
  rw [← barred_squeezed, respaced.squeezed_eq, barred_squeezed]

theorem free_congr {text other : List Char} (respaced : Respaced text other) :
    (¬ Barred text ∧ ¬ Spaced text) ↔ ¬ Barred other ∧ ¬ Spaced other := by
  rw [← reason?_squeezed_eq_none_iff, ← reason?_squeezed_eq_none_iff, respaced.squeezed_eq]

/-- Where a keyword of two words changes nothing, the guard passes what is not refused however it is
spaced. -/
theorem reason?_eq_none_iff_not_barred {text : List Char} (h : Spaced text → Barred text) :
    reason? text = none ↔ ¬ Barred text := by
  rw [reason?_eq_none_iff_standsIn, and_iff_left_iff_imp]
  rintro free first second there ⟨run, run', cut, spelled, spelled'⟩
  exact free (h ⟨_, there, run, [' '], run', cut, Text.blank_space, spelled, spelled'⟩)

/-- A text passes respaced as it is exactly if it is refused however it is spaced, or no keyword of
two words stands in it with nothing but white space between them. -/
theorem reason?_congr_iff {text : List Char} :
    (∀ other, Respaced text other → (reason? text = none ↔ reason? other = none)) ↔
      (Spaced text → Barred text) := by
  constructor
  · intro same spaced
    -- squeezed, the text is refused for the keyword; with tabulators it passes
    by_contra free
    have passes : reason? text = none :=
      (same _ (Text.respaced_tabbed text)).mpr (reason?_tabbed_eq_none_iff.mpr free)
    have squeezes := (same _ (Text.respaced_squeezed text)).mp passes
    exact (reason?_squeezed_eq_none_iff.mp squeezes).2 spaced
  · intro h other respaced
    have h' : Spaced other → Barred other := by
      intro spaced
      by_contra free
      have free' : ¬ Barred text := fun barred => free ((barred_congr respaced).mp barred)
      exact ((free_congr respaced).mp ⟨free', fun spaced' => free' (h spaced')⟩).2 spaced
    rw [reason?_eq_none_iff_not_barred h, reason?_eq_none_iff_not_barred h', barred_congr respaced]

/-- Whether a statement reads is seen at its first word. -/
theorem isSelect_iff {text : String} :
    isSelect text = true ↔
      "select".toList <+: Text.lowerFrom false (Text.firstWord text.toList) := by
  rw [isSelect, Text.lowercase, Text.stripped, List.isPrefixOf_iff_prefix]
  simp only [String.toList_ofList]
  have solid : ∀ c ∈ "select".toList, isBlank c = false := by simp; decide
  rw [Text.prefix_lowerFrom_iff solid, Text.takeWhile_strip]

theorem isSelect_congr {text other : String} (respaced : Respaced text.toList other.toList) :
    isSelect text = isSelect other := by
  rw [Bool.eq_iff_iff, isSelect_iff, isSelect_iff, ← Text.firstWord_squeezed, respaced.squeezed_eq,
    Text.firstWord_squeezed]

/-- The guard passes or refuses a piece of SQL however its white space is replaced by other white
space, exactly if it holds no two words of a keyword with nothing but white space between them, or
if it is refused for a semicolon or a keyword of one word in any case. For a statement the same is
true of those that begin with the word that reads; the others are refused however they are
spaced. -/
theorem spacing_irrelevant_iff (text context : String) :
    ((∀ other : String, Respaced text.toList other.toList →
        (checkPiece text context = .ok () ↔ checkPiece other context = .ok ())) ↔
      (Spaced text.toList → Barred text.toList)) ∧
    ((∀ other : String, Respaced text.toList other.toList →
        (checkStatement text context = .ok () ↔ checkStatement other context = .ok ())) ↔
      (isSelect text = true → Spaced text.toList → Barred text.toList)) := by
  have texts : (∀ other : String, Respaced text.toList other.toList →
      (reason? text.toList = none ↔ reason? other.toList = none)) ↔
        (Spaced text.toList → Barred text.toList) := by
    rw [← reason?_congr_iff]
    exact ⟨fun same other respaced => by simpa using same (String.ofList other) (by simpa),
      fun same other => same other.toList⟩
  constructor
  · simpa only [checkPiece_eq_ok_iff] using texts
  · rw [← texts]
    simp only [checkStatement_eq_ok_iff]
    constructor
    · intro same reads other respaced
      simpa [reads, ← isSelect_congr respaced] using same other respaced
    · intro same other respaced
      rw [← isSelect_congr respaced]
      exact and_congr_right fun reads => same reads other respaced

/-- Two blanks in place of one are enough. -/
example : checkStatement "select 1 into outfile 'x'" "" ≠ .ok () ∧
    checkStatement "select 1 into  outfile 'x'" "" = .ok () := by decide +kernel

end Guard

end Relata
