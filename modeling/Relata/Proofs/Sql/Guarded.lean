import Mathlib.Data.List.Forall2
import Relata.Proofs.Sql.Placeholders

/-!
What passes the guard, apart from how the guard looks for it. A keyword occurs in a text where
letters of either case spell it out with no word character on either side; a statement only reads if
it begins with the word that reads, holds no semicolon and no forbidden keyword. The guard lets
through exactly the statements that only read, and refuses every other one as such.
-/

namespace Relata

namespace Guard

/-- A keyword stands in the text as a word of its own, in letters of either case. -/
def Occurs (keyword text : List Char) : Prop :=
  ∃ before word after, text = before ++ word ++ after ∧
    List.Forall₂ (fun letter c => isFormOf letter c = true) keyword word ∧
    before.getLast?.any Text.isWord = false ∧ after.head?.any Text.isWord = false

theorem after?_eq_some_iff {keyword text rest : List Char} :
    after? keyword text = some rest ↔ ∃ word, text = word ++ rest ∧
      List.Forall₂ (fun letter c => isFormOf letter c = true) keyword word := by
  induction keyword generalizing text with
  | nil => simp [after?]
  | cons letter keyword ih =>
    cases text with
    | nil => simp [after?, List.forall₂_cons_left_iff]
    | cons c text =>
      by_cases h : isFormOf letter c = true
      · simp only [after?, h, if_true, ih, List.forall₂_cons_left_iff]
        constructor
        · rintro ⟨word, rfl, spelled⟩
          exact ⟨c :: word, rfl, c, word, h, spelled, rfl⟩
        · rintro ⟨_, same, d, word, _, spelled, rfl⟩
          exact ⟨word, (List.cons.inj same).2, spelled⟩
      · simp only [after?, h, List.forall₂_cons_left_iff]
        constructor
        · rintro ⟨⟩
        · rintro ⟨_, same, d, word, hd, _, rfl⟩
          exact absurd ((List.cons.inj same).1 ▸ hd) h

theorem beginsWith_iff {keyword text : List Char} :
    beginsWith keyword text = true ↔ ∃ word after, text = word ++ after ∧
      List.Forall₂ (fun letter c => isFormOf letter c = true) keyword word ∧
      after.head?.any Text.isWord = false := by
  unfold beginsWith
  split
  · next rest h =>
    obtain ⟨word, rfl, spelled⟩ := after?_eq_some_iff.mp h
    constructor
    · exact fun free => ⟨word, rest, rfl, spelled, by simpa using free⟩
    · rintro ⟨word', after, same, spelled', free⟩
      have := List.append_inj same (spelled.length_eq.symm.trans spelled'.length_eq)
      simp [this.2, free]
  · next h =>
    refine ⟨fun no => (by cases no), fun ⟨word, after, same, spelled, _⟩ => ?_⟩
    rw [after?_eq_some_iff.mpr ⟨word, same, spelled⟩] at h
    cases h

theorem elim_getLast?_cons (c : Char) (before : List Char) (b : Bool) (f : Char → Bool) :
    (c :: before).getLast?.elim b f = before.getLast?.elim (f c) f := by
  cases before <;> simp [List.getLast?_cons]

/-- By induction on the text; what stands before the place that has been reached is only known by
whether it ends with a word character. -/
theorem occursFrom_iff {keyword : List Char} (spells : keyword ≠ []) {afterWord : Bool}
    {text : List Char} :
    occursFrom keyword afterWord text = true ↔ ∃ before rest, text = before ++ rest ∧
      beginsWith keyword rest = true ∧ (before.getLast?.elim afterWord Text.isWord) = false := by
  induction text generalizing afterWord with
  | nil =>
    have never : beginsWith keyword [] = false := by
      cases keyword with
      | nil => exact absurd rfl spells
      | cons letter keyword => rfl
    simp only [occursFrom, Bool.false_eq_true, false_iff]
    rintro ⟨before, rest, same, begins, _⟩
    obtain ⟨rfl, rfl⟩ := List.append_eq_nil_iff.mp same.symm
    simp [never] at begins
  | cons c text ih =>
    simp only [occursFrom, Bool.or_eq_true, Bool.and_eq_true, Bool.not_eq_true', ih]
    constructor
    · rintro (⟨free, begins⟩ | ⟨before, rest, rfl, begins, free⟩)
      · exact ⟨[], c :: text, rfl, begins, free⟩
      · exact ⟨c :: before, rest, rfl, begins, by rwa [elim_getLast?_cons]⟩
    · rintro ⟨before, rest, same, begins, free⟩
      cases before with
      | nil => exact .inl ⟨free, same ▸ begins⟩
      | cons d before =>
        obtain ⟨rfl, rfl⟩ := List.cons.inj same
        exact .inr ⟨before, rest, rfl, begins, by rwa [elim_getLast?_cons] at free⟩

/-- The guard finds a keyword exactly where it occurs. -/
theorem occurs_iff {keyword text : List Char} (spells : keyword ≠ []) :
    occurs keyword text = true ↔ Occurs keyword text := by
  rw [occurs, occursFrom_iff spells]
  constructor
  · rintro ⟨before, rest, rfl, begins, free⟩
    obtain ⟨word, after, rfl, spelled, ends⟩ := beginsWith_iff.mp begins
    refine ⟨before, word, after, by simp, spelled, ?_, ends⟩
    cases h : before.getLast? <;> simp_all
  · rintro ⟨before, word, after, rfl, spelled, free, ends⟩
    have begins := beginsWith_iff.mpr ⟨word, after, rfl, spelled, ends⟩
    refine ⟨before, word ++ after, by simp, begins, ?_⟩
    cases h : before.getLast? <;> simp_all

/-- A statement that only reads. -/
structure ReadOnly (text : String) : Prop where
  /-- Stripped and in small letters it begins with the word that reads. -/
  reads : "select".toList <+: (Text.lowercase (Text.stripped text)).toList
  /-- It is a single statement. -/
  single : ';' ∉ text.toList
  /-- No keyword that writes stands in it as a word. -/
  clean : ∀ keyword ∈ forbidden, ¬ Occurs keyword.toList text.toList

theorem reason?_eq_none_iff {text : List Char} :
    reason? text = none ↔ ';' ∉ text ∧ ∀ keyword ∈ forbidden, ¬ Occurs keyword.toList text := by
  have spells : ∀ keyword ∈ forbidden, keyword.toList ≠ [] := by decide
  unfold reason?
  by_cases h : ';' ∈ text
  · simp [h]
  · simp only [List.contains_eq_mem, h, decide_false, Bool.false_eq_true, if_false,
      Option.map_eq_none_iff, List.find?_eq_none, not_false_eq_true, true_and]
    exact forall₂_congr fun keyword there => by rw [occurs_iff (spells keyword there)]

/-- The guard lets through exactly what only reads. -/
theorem checkStatement_iff {text context : String} :
    checkStatement text context = .ok () ↔ ReadOnly text := by
  rw [checkStatement_eq_ok_iff, isSelect, List.isPrefixOf_iff_prefix, reason?_eq_none_iff]
  constructor
  · rintro ⟨reads, single, clean⟩
    exact ⟨reads, single, clean⟩
  · intro h
    exact ⟨h.reads, h.single, h.clean⟩

/-- Whatever else is refused as a violation, for one reason in any context. -/
theorem checkStatement_of_not_readOnly {text : String} (writes : ¬ ReadOnly text) :
    ∃ reason, ∀ context, checkStatement text context = .error (.readOnly context reason) := by
  have refused : checkStatement text "" ≠ .ok () :=
    fun passed => writes (checkStatement_iff.mp passed)
  unfold checkStatement checkPiece at *
  by_cases reads : isSelect text = true
  · cases found : reason? text.toList with
    | none => simp [reads, found] at refused
    | some reason => exact ⟨reason, fun context => by simp [reads]⟩
  · exact ⟨_, fun context => by rw [if_neg reads]⟩

end Guard

namespace Sql.Statement

/-- A statement is handed out exactly if it only reads. -/
theorem checked_eq_ok_iff_readOnly {s : Statement} {context : String} {f : Fragment} :
    s.checked context = .ok f ↔ s.compile = .ok f ∧ Guard.ReadOnly f.text := by
  rw [checked_eq_ok_iff, Guard.checkStatement_iff]

/-- A statement that does not only read is refused as a violation. -/
theorem checked_of_not_readOnly {s : Statement} {f : Fragment} (compiled : s.compile = .ok f)
    (writes : ¬ Guard.ReadOnly f.text) :
    ∃ reason, ∀ context, s.checked context = .error (.readOnly context reason) := by
  obtain ⟨reason, refused⟩ := Guard.checkStatement_of_not_readOnly writes
  exact ⟨reason, fun context => by simp [checked, compiled, refused, bind, Except.bind]⟩

end Sql.Statement

end Relata
