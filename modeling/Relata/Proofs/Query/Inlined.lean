import Relata.Proofs.Query.Built

/-!
Statements with their values written into them. The values are put in one after the other, each for
the first placeholder that is left in the text, and a value that was put in before is part of the text.
-/

namespace Relata

open Sql (Fragment Statement)

namespace Sql.Statement

/-- The text with literals in place of its placeholders, the first for the first one and so on. -/
def filled : List Char → List (List Char) → List Char
  | [], _ => []
  | c :: rest, literals =>
    if c = '?' then
      match literals with
      | [] => c :: rest
      | l :: more => l ++ filled rest more
    else c :: filled rest literals

/-- Literals put in one after the other, each for the first placeholder that is left. -/
def inserted (text : List Char) (literals : List (List Char)) : List Char :=
  literals.foldl (fun text l => replaceFirst l text) text

theorem inlined_eq (shown : Value → String) (f : Fragment) :
    inlined shown f = String.ofList (inserted f.text.toList (f.values.map (literal shown))) := by
  rw [inlined, inserted, List.foldl_map]

variable {before text l : List Char} {literals : List (List Char)}

@[simp] theorem filled_nil (text : List Char) : filled text [] = text := by
  induction text with
  | nil => rfl
  | cons c rest ih => simp [filled, ih]

section

variable (unmarked : '?' ∉ before)
include unmarked

theorem replaceFirst_append : replaceFirst l (before ++ text) = before ++ replaceFirst l text := by
  induction before with
  | nil => rfl
  | cons c rest ih =>
    obtain ⟨own, others⟩ := List.ne_and_not_mem_of_not_mem_cons unmarked
    simp [replaceFirst, own.symm, ih others]

theorem inserted_append : inserted (before ++ text) literals = before ++ inserted text literals := by
  induction literals generalizing text with
  | nil => rfl
  | cons l rest ih =>
    change inserted (replaceFirst l (before ++ text)) rest = before ++ inserted (replaceFirst l text) rest
    rw [replaceFirst_append unmarked, ih]

theorem filled_append : filled (before ++ text) literals = before ++ filled text literals := by
  induction before with
  | nil => rfl
  | cons c rest ih =>
    obtain ⟨own, others⟩ := List.ne_and_not_mem_of_not_mem_cons unmarked
    simp [filled, own.symm, ih others]

/-- The first literal takes the place of the first placeholder, and is searched with what follows. -/
theorem inserted_cons :
    inserted (before ++ '?' :: text) (l :: literals) = before ++ inserted (l ++ text) literals := by
  change inserted (replaceFirst l (before ++ '?' :: text)) literals = _
  rw [replaceFirst_append unmarked, inserted_append unmarked]
  simp [replaceFirst]

theorem filled_cons :
    filled (before ++ '?' :: text) (l :: literals) = before ++ (l ++ filled text literals) := by
  rw [filled_append unmarked]
  simp [filled]

end

/-- The placeholder of the first literal, with one for each of the others behind it. -/
theorem exists_first (marked : text.count '?' = (l :: literals).length) :
    ∃ before after, text = before ++ '?' :: after ∧ '?' ∉ before ∧
      after.count '?' = literals.length := by
  have there : '?' ∈ text := List.count_pos_iff.mp (by rw [marked]; simp)
  obtain ⟨before, after, rfl, first⟩ := List.eq_append_cons_of_mem there
  refine ⟨before, after, rfl, first, ?_⟩
  simpa [List.count_append, List.count_eq_zero.mpr first] using marked

/-- Literals go to the places of their own if none of them but the last brings a placeholder along. -/
theorem inserted_eq_filled (marked : text.count '?' = literals.length)
    (unmarked : ∀ l ∈ literals.dropLast, '?' ∉ l) : inserted text literals = filled text literals := by
  induction literals generalizing text with
  | nil => simp [inserted]
  | cons l rest ih =>
    obtain ⟨before, after, rfl, first, fewer⟩ := exists_first marked
    rw [inserted_cons first, filled_cons first]
    cases rest with
    | nil => simp [inserted]
    | cons next more =>
      have own : '?' ∉ l := unmarked l (by simp)
      rw [inserted_append own, ih fewer fun l' there => unmarked l' (by simp [there])]

/-- A text begins, and with something else than a placeholder. -/
def Opens (text : List Char) : Prop := ∃ c ∈ text.head?, c ≠ '?'

theorem Opens.append {text : List Char} (h : Opens text) (more : List Char) : Opens (text ++ more) := by
  obtain ⟨c, first, other⟩ := h
  exact ⟨c, by simp [Option.mem_def.mp first], other⟩

theorem opens_of_not_mem {text : List Char} (some_ : text ≠ []) (unmarked : '?' ∉ text) : Opens text :=
  ⟨text.head some_, List.head_mem_head? some_, fun same => unmarked (same ▸ List.head_mem some_)⟩

/-- Otherwise they do not, since the next one would take the place of the placeholder that is brought along:
it begins with another character. -/
theorem unmarked_of_inserted_eq_filled (marked : text.count '?' = literals.length)
    (opens : ∀ l ∈ literals, Opens l)
    (same : inserted text literals = filled text literals) : ∀ l ∈ literals.dropLast, '?' ∉ l := by
  induction literals generalizing text with
  | nil => simp
  | cons l rest ih =>
    obtain ⟨before, after, rfl, first, fewer⟩ := exists_first marked
    rw [inserted_cons first, filled_cons first, List.append_cancel_left_eq] at same
    cases rest with
    | nil => simp
    | cons next more =>
      have own : '?' ∉ l := by
        intro brought
        obtain ⟨start, ending, rfl, none⟩ := List.eq_append_cons_of_mem brought
        obtain ⟨c, first, other⟩ := opens next (by simp)
        obtain ⟨tail, rfl⟩ := List.head?_eq_some_iff.mp first
        have beginning : '?' ∉ [c] := by simpa using other.symm
        have step : inserted (start ++ '?' :: ending ++ after) ((c :: tail) :: more) =
            start ++ (c :: inserted (tail ++ (ending ++ after)) more) := by
          rw [List.append_assoc, List.cons_append, inserted_cons none]
          exact congrArg (start ++ ·) (inserted_append beginning)
        rw [step, List.append_assoc, List.append_cancel_left_eq, List.cons_append, List.cons.injEq] at same
        exact other same.1
      rw [inserted_append own, List.append_cancel_left_eq] at same
      rw [List.dropLast_cons_cons]
      exact List.forall_mem_cons.mpr ⟨own, ih fewer (fun l there => opens l (by simp [there])) same⟩

theorem opens_toString (n : Nat) : Opens (toString n).toList := by
  rw [Nat.toString_eq_ofList_toDigits, String.toList_ofList]
  exact opens_of_not_mem Nat.toDigits_ne_nil fun there =>
    absurd (Nat.isDigit_of_mem_toDigits (by decide) (by decide) there) (by decide)

theorem opens_written (m : Moment) (separator : Char) : Opens (m.written separator).toList := by
  have padded (width n : Nat) : Opens (Moment.padded width n) := by
    unfold Moment.padded
    dsimp only
    cases width - (Nat.toDigits 10 n).length with
    | zero => simpa using opens_toString n
    | succ more => simp [Opens, List.replicate_succ]
  simp only [Moment.written, Moment.date, String.toList_ofList, List.append_assoc]
  exact (padded 4 m.year).append _

/-- What is no text and no object is shown by a text that begins with something else than a placeholder. -/
theorem opens_innerBy (object : ObjectId → String) (v : Value) (data : ∀ id, v ≠ .object id)
    (bare : ∀ s, v ≠ .text s) : Opens (v.innerBy object).toList := by
  unfold Value.innerBy
  split
  case h_1 s => exact absurd rfl (bare s)
  case h_7 b => cases b <;> simp [Opens]
  case h_8 i =>
    cases i with
    | ofNat n => exact opens_toString n
    | negSucc n => simp [Opens, Int.repr_eq_if]
  case h_9 x => exact opens_of_not_mem x.text_ne_empty (Binary64.not_mem_text (by decide) (by decide) x)
  case h_11 id => exact absurd rfl (data id)
  all_goals simp [Opens]

theorem opens_literal (env : Env) {v : Value} (object : ∀ id, v = .object id → Opens (env.shown v).toList) :
    Opens (literal env.shown v) := by
  have inner (v : Value) (data : ∀ id, v ≠ .object id) (bare : ∀ s, v ≠ .text s) :
      Opens (env.inner v).toList := opens_innerBy _ v data bare
  unfold literal
  split
  · simp [Opens]
  · simp [Opens]
  · next v bare null =>
    unfold Env.shown
    split
    · exact object _ rfl
    · exact inner _ nofun nofun
    · exact absurd rfl (bare _)
    · exact opens_written _ _
    · next data _ _ _ => exact inner _ data bare

/-- The text of a fragment with each placeholder replaced by the literal of the value of its number. -/
def inPlace (shown : Value → String) (f : Fragment) : String :=
  String.ofList (filled f.text.toList (f.values.map (literal shown)))

end Sql.Statement

namespace Build

open Sql.Statement

theorem call_toRawSql (env : Env) {q : Query} {f : Fragment}
    (written : q.statement.checked "to_raw_sql" = .ok f) :
    env.call (.mk "to_raw_sql" [] []) q = .ok (.value (.text (inlined env.shown f))) q := by
  have checked : checkedStatement "to_raw_sql" q = .ok f q :=
    bind_eq_ok rfl (ofExcept_eq_ok written q)
  have called : Method.ofName? (Call.mk "to_raw_sql" [] []).method = some .toRawSql := rfl
  refine bind_eq_ok rfl (bind_eq_ok rfl ?_)
  simp only [called]
  exact bind_eq_ok rfl (bind_eq_ok checked rfl)

/-- The raw text of a query with a placeholder for each value: no value but the last may be shown with
a placeholder of its own, or the next one is put in its place. That is all that can go wrong, whatever
characters the values contain, and it does go wrong, unless an object is shown by a text that is
empty or begins with a placeholder itself. -/
theorem raw_text_in_place_iff {env : Env} {q : Query} {f : Fragment}
    (written : q.statement.checked "to_raw_sql" = .ok f) (balanced : f.Balanced) :
    ∃ text, env.call (.mk "to_raw_sql" [] []) q = .ok (.value (.text text)) q ∧
      ((∀ v ∈ f.values.dropLast, '?' ∉ literal env.shown v) → text = inPlace env.shown f) ∧
      ((∀ id, .object id ∈ f.values → Opens (env.shown (.object id)).toList) →
        text = inPlace env.shown f → ∀ v ∈ f.values.dropLast, '?' ∉ literal env.shown v) := by
  have marked : f.text.toList.count '?' = (f.values.map (literal env.shown)).length := by
    rw [List.length_map]
    exact balanced
  refine ⟨_, call_toRawSql env written, fun unmarked => ?_, fun objects same v there => ?_⟩
  · rw [inlined_eq, inPlace, inserted_eq_filled marked]
    simpa [← List.map_dropLast] using unmarked
  · rw [inlined_eq, inPlace, String.ofList_inj] at same
    refine unmarked_of_inserted_eq_filled marked ?_ same _ ?_
    · simp only [List.forall_mem_map]
      exact fun w among => opens_literal env fun id own => by
        subst own
        exact objects id among
    · rw [← List.map_dropLast]
      exact List.mem_map_of_mem there

/-- The posts of a title that is asked with, and of a number. -/
def titledPosts : Query :=
  { newPosts with
    select := { newPosts.select with
      conditions := [.leaf .and (.compare "title" "=" (.text "a?b")),
        .leaf .and (.compare "id" "=" (.int 1))] } }

/-- What the statement of these posts is, with its values. -/
def titledStatement : Fragment :=
  ⟨"SELECT * FROM posts WHERE title = ? AND id = ?", [.text "a?b", .int 1]⟩

/-- The second value is put into the literal of the first, and its own placeholder stays. -/
theorem second_value_in_first_literal :
    titledPosts.statement.checked "to_raw_sql" = .ok titledStatement ∧ titledStatement.Balanced ∧
      (∃ text, plainEnv.call (.mk "to_raw_sql" [] []) titledPosts =
        .ok (.value (.text text)) titledPosts ∧ text ≠ inPlace plainEnv.shown titledStatement) ∧
      inlined plainEnv.shown titledStatement =
        "SELECT * FROM posts WHERE title = 'a1b' AND id = ?" ∧
      inPlace plainEnv.shown titledStatement =
        "SELECT * FROM posts WHERE title = 'a?b' AND id = 1" := by
  have written : titledPosts.statement.checked "to_raw_sql" = .ok titledStatement := by
    refine Statement.checked_eq_ok_iff.mpr ⟨by rfl, Guard.checkStatement_ofList _ ?_ ?_⟩
    · decide +kernel
    · decide +kernel
  have balanced : titledStatement.Balanced := by
    change (2 : Nat) = 2
    rfl
  obtain ⟨text, call, -, only⟩ := @raw_text_in_place_iff plainEnv _ _ written balanced
  refine ⟨written, balanced, ⟨text, call, fun same => ?_⟩, by decide +kernel, by decide +kernel⟩
  exact only (by simp [titledStatement]) same (.text "a?b") (by simp [titledStatement])
    (by decide +kernel)

end Build

end Relata
