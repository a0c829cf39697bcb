import Mathlib
import Relata.Proofs.Query.Built
import Relata.Proofs.Sql.Unknown

/-!
Negation of a group or of a comparison. A group is put behind NOT; a comparison is turned into the
one with the opposite operator, which is looked up in a table of nine. Main statement: what is added
is the negation of what is added without it, of a group as of a comparison by an operator of the
table; a comparison by any other operator is added as it is, and without anything to compare with it
is one with the operator itself.
-/

namespace Relata

open Sql (Clause Condition Judges Junction Opposite SameWord Test Truth)

/-! Capitals, of the letters that have them within the first hundred and twenty-eight characters. -/

namespace Text

theorem map_toUpper_of_not_alpha {cs : List Char} (bare : ∀ c ∈ cs, c.isAlpha = false) :
    cs.map Char.toUpper = cs := by
  refine (List.map_congr_left fun c there => Char.toUpper_eq_of_not_isLower fun lower => ?_).trans
    (List.map_id' cs)
  simpa [Char.isAlpha, lower] using bare c there

theorem toNat_of_lower {c : Char} (h : c.isLower = true) : c.toNat < 0x80 := by
  simp only [Char.isLower, Bool.and_eq_true, decide_eq_true_eq, UInt32.le_iff_toNat_le] at h
  exact Nat.lt_of_le_of_lt h.2 (by decide)

/-- A text whose capitals are among these characters is itself one of them. -/
theorem uppercase_eq {s : String} {cs : List Char} (upper : s.toList.map Char.toUpper = cs)
    (ascii : ∀ c ∈ cs, c.toNat < 0x80) : uppercase s = String.ofList cs := by
  have each (c : Char) (there : c ∈ s.toList) : upperChar c = [c.toUpper] := by
    have within : c.toNat < 0x80 := by
      by_cases lower : c.isLower = true
      · exact toNat_of_lower lower
      · rw [← Char.toUpper_eq_of_not_isLower lower]
        exact ascii _ (upper ▸ List.mem_map_of_mem there)
    rw [upperChar, if_pos within]
  rw [uppercase, ← upper, List.map_eq_flatMap]
  rw [List.flatMap_def, List.flatMap_def, List.map_congr_left each]

end Text

namespace Sql

/-- A word without letters has one spelling. -/
theorem eq_of_sameWord {o p : String} (same : SameWord o p)
    (bare : ∀ c ∈ p.toList, c.isAlpha = false) : o = p := by
  have capitals : o.toList.map Char.toUpper = p.toList :=
    same.trans (Text.map_toUpper_of_not_alpha bare)
  have unlettered (c : Char) (there : c ∈ o.toList) : c.isAlpha = false := by
    rw [← Char.isAlpha_toUpper_eq_isAlpha]
    exact bare _ (capitals ▸ List.mem_map_of_mem there)
  exact String.toList_inj.mp ((Text.map_toUpper_of_not_alpha unlettered).symm.trans capitals)

/-- The test that a comparison becomes: with nothing, equality is a test for null. -/
def Test.comparing (column operator : String) (value : Value) : Test :=
  if value.isNull && Build.equalWords.contains operator then .null false column
  else if value.isNull && Build.unequalWords.contains operator then .null true column
  else .compare column operator value

/-- Of two conditions the second says the opposite of the first, or neither says anything. -/
structure Opposed (c d : Clause) : Prop where
  silent : d.tokens = [] ↔ c.tokens = []
  truth : ∀ v, Judges v → d.truth? v = (c.truth? v).map Truth.not
  /-- In particular where no test is unknown. -/
  holds : ∀ w : Test → Bool, Judges (fun t => .known (w t)) → d.holds? w = (c.holds? w).map (!·)

theorem opposed_group (cs : List Clause) : Opposed (.group .and false cs) (.group .and true cs) where
  silent := by
    simp only [Condition.tokens, List.isEmpty_iff]
    split <;> simp
  truth v _ := Condition.truth?_group_negated v .and .and cs
  holds w _ := by simp [Condition.holds?]

theorem opposed_leaf {s t : Test} (h : ∀ v, Judges v → v t = (v s).not) :
    Opposed (.leaf .and s) (.leaf .and t) where
  silent := by simp [Condition.tokens]
  truth v judges := by simp [Condition.truth?, h v judges]
  holds w judges := by
    have known := h _ judges
    simpa [Condition.holds?] using known

/-- The word for a test for null that an operator is, if it compares with nothing: whether the test
is negated. -/
def nullTest? (operator : String) : Option Bool :=
  if Build.equalWords.contains operator then some false
  else if Build.unequalWords.contains operator then some true
  else none

theorem Test.comparing_null (column operator : String) :
    Test.comparing column operator .null =
      (nullTest? operator).elim (.compare column operator .null) (.null · column) := by
  unfold comparing nullTest?
  cases Build.equalWords.contains operator <;> cases Build.unequalWords.contains operator <;> rfl

theorem Test.comparing_given {value : Value} (given : value.isNull = false)
    (column operator : String) :
    Test.comparing column operator value = .compare column operator value := by
  simp [comparing, given]

end Sql

/-- What the table of opposite operators says of one. -/
structure Build.Turned (word opposite : String) : Prop where
  opposed : Opposite word opposite
  capital : word.toList.map Char.toUpper = word.toList
  ascii : ∀ c ∈ word.toList, c.toNat < 0x80
  tests : Sql.nullTest? opposite = (Sql.nullTest? word).map (!·)
  /-- A word with letters is none that tests for null. -/
  bare : (∀ c ∈ word.toList, c.isAlpha = false) ∨
    ∀ n ∈ equalWords ++ unequalWords, ¬ SameWord n word

theorem Build.turned {word opposite : String} (h : negatedOperator? word = some opposite) :
    Turned word opposite := by
  obtain ⟨before, after, table, -⟩ := List.lookup_eq_some_iff.mp h
  have there : (word, opposite) ∈ [("=", "!="), ("!=", "="), ("<>", "="), ("<", ">="), ("<=", ">"),
      (">", "<="), (">=", "<"), ("LIKE", "NOT LIKE"), ("NOT LIKE", "LIKE")] := by
    rw [table]
    simp
  simp only [List.mem_cons, Prod.mk.injEq, List.not_mem_nil, or_false] at there
  obtain ⟨rfl, rfl⟩ | ⟨rfl, rfl⟩ | ⟨rfl, rfl⟩ | ⟨rfl, rfl⟩ | ⟨rfl, rfl⟩ | ⟨rfl, rfl⟩ | ⟨rfl, rfl⟩ |
    ⟨rfl, rfl⟩ | ⟨rfl, rfl⟩ := there
  · exact ⟨.unequal, by decide, by simp, by decide, .inl (by simp)⟩
  · exact ⟨.symm .unequal, by decide, by simp, by decide, .inl (by simp)⟩
  · exact ⟨.symm .different, by decide, by simp, by decide, .inl (by simp)⟩
  · exact ⟨.less, by decide, by simp, by decide, .inl (by simp)⟩
  · exact ⟨.symm .greater, by decide, by simp, by decide, .inl (by simp)⟩
  · exact ⟨.greater, by decide, by simp, by decide, .inl (by simp)⟩
  · exact ⟨.symm .less, by decide, by simp, by decide, .inl (by simp)⟩
  · exact ⟨.unlike, by decide, by simp, by decide, .inr (by decide)⟩
  · exact ⟨.symm .unlike, by decide, by simp, by decide, .inr (by decide)⟩

/-- All spellings of an operator test for null, or none does. -/
theorem Build.Turned.nullTest? {o word opposite : String} (turned : Turned word opposite)
    (spelled : SameWord o word) : Sql.nullTest? o = Sql.nullTest? word := by
  rcases turned.bare with bare | other
  · rw [Sql.eq_of_sameWord spelled bare]
  · have none_ {n : String} (same : SameWord n word) : Sql.nullTest? n = none := by
      have equal : ¬ n ∈ equalWords := fun there => other n (List.mem_append_left _ there) same
      have unequal : ¬ n ∈ unequalWords := fun there => other n (List.mem_append_right _ there) same
      simp [Sql.nullTest?, equal, unequal]
    rw [none_ spelled, none_ rfl]

/-- A spelling of an operator becomes the operator in capitals. -/
theorem Build.uppercase_of_sameWord {o word opposite : String} (spelled : SameWord o word)
    (turned : Turned word opposite) : Text.uppercase o = word := by
  rw [Text.uppercase_eq (spelled.trans turned.capital) turned.ascii, String.ofList_toList]

namespace Sql

/-- An operator of the table is opposite to the one that it is turned into. -/
theorem comparing_negated {v : Test → Truth} (judges : Judges v) {o word opposite : String}
    (spelled : SameWord o word) (turned : Build.Turned word opposite)
    (column : String) (value : Value) :
    v (.comparing column opposite value) = (v (.comparing column o value)).not := by
  have compared : v (.compare column opposite value) = (v (.compare column o value)).not := by
    rw [judges.opposite turned.opposed, judges.word spelled]
  cases given : value.isNull with
  | false => rwa [Test.comparing_given given, Test.comparing_given given]
  | true =>
    cases value <;> cases given
    rw [Test.comparing_null, Test.comparing_null, turned.tests, ← turned.nullTest? spelled]
    cases nullTest? o with
    | none => exact compared
    | some negated =>
      obtain ⟨b, null, some_⟩ := judges.null column
      cases negated <;> simp [null, some_]

end Sql

namespace Build

/-- The query with one more root condition. -/
def withCondition (q : Query) (c : Clause) : Query :=
  { q with select := { q.select with conditions := q.select.conditions ++ [c] } }

/-- Where the first step adds a condition joined by AND, the second adds the opposite one; where one
of them fails, so does the other. -/
def Negates (step other : Build Unit) (q : Query) : Prop :=
  (∃ e, step q = .error e q ∧ other q = .error e q) ∨
  ∃ c d : Clause, step q = .ok () (withCondition q c) ∧ other q = .ok () (withCondition q d) ∧
    c.junction = .and ∧ d.junction = .and ∧ Sql.Opposed c d

/-- NOT makes no difference to how a group comes about. -/
theorem group_run (inner : Caller) (junction : Junction) (callback : Value) (q : Query) :
    (∃ e, ∀ negated, group inner .conditions junction negated callback q = .error e q) ∨
    ∃ children, ∀ negated, group inner .conditions junction negated callback q =
      .ok (.group junction negated children) q := by
  have got : (get : Build Query) q = .ok q q := rfl
  by_cases unnamed : (!q.select.table.isNull && q.select.table.asText?.isNone) = true
  · refine .inl ⟨.invalid [⟨["table_name"], .notText⟩], fun negated => bind_eq_of_ok got ?_⟩
    dsimp only
    rw [if_pos unnamed]
    rfl
  · cases ran : refine inner callback (.blank q.select.source q.select.table) with
    | ok answer sub =>
      have ran : on (.blank q.select.source q.select.table) (refine inner callback) q =
          .ok (answer, sub) q := by
        rw [on, EStateM.run, ran]
      refine .inr ⟨sub.select.conditions, fun negated => bind_eq_of_ok got ?_⟩
      dsimp only
      rw [if_neg unnamed]
      exact bind_eq_of_ok ran rfl
    | error e sub =>
      have ran : on (.blank q.select.source q.select.table) (refine inner callback) q =
          .error e q := by
        rw [on, EStateM.run, ran]
      refine .inl ⟨e, fun negated => bind_eq_of_ok got ?_⟩
      dsimp only
      rw [if_neg unnamed]
      exact bind_eq_error ran _

/-- A comparison by a text checks the column, and nothing else. -/
theorem comparison_eq (junction : Junction) (column : Value) (operator : String) (value : Value) :
    comparison junction column (some (.text operator)) (some value) = do
      checkNames (Sql.nameIssues "column" column)
      return .leaf junction (.comparing column.shown operator value) := by
  have texts : Sql.nameIssues "column" column ++ Sql.nameIssues "operator" (.text operator) =
      Sql.nameIssues "column" column := List.append_nil _
  unfold comparison Test.comparing
  change (if (value.isNull && equalWords.contains operator) = true then _
    else if (value.isNull && unequalWords.contains operator) = true then _ else _ : Build Clause) = _
  rw [Option.getD_some, texts]
  split
  · rfl
  · split
    · rfl
    · rfl

variable {inner : Caller} {q : Query} {column : Value}

theorem negates_group (callable : column.isCallable = true) (operator value : Option Value) :
    Negates (compareOrGroup inner .conditions .and column operator value)
      (whereNot inner column operator value) q := by
  unfold compareOrGroup whereNot
  rw [if_pos callable, if_pos callable]
  obtain ⟨e, failed⟩ | ⟨children, made⟩ := group_run inner .and column q
  · exact .inl ⟨e, bind_eq_error (failed false) _, bind_eq_error (failed true) _⟩
  · exact .inr ⟨_, _, bind_eq_of_ok (made false) rfl, bind_eq_of_ok (made true) rfl, rfl, rfl,
      Sql.opposed_group children⟩

theorem negates_comparison {o p : String} {value : Value}
    (opposite : ∀ v, Judges v → ∀ name,
      v (.comparing name p value) = (v (.comparing name o value)).not) :
    Negates (do addCondition (← comparison .and column (some (.text o)) (some value)))
      (do addCondition (← comparison .and column (some (.text p)) (some value))) q := by
  rw [comparison_eq, comparison_eq]
  by_cases named : (Sql.nameIssues "column" column).isEmpty = true
  · have checked : checkNames (Sql.nameIssues "column" column) q = .ok () q := by
      rw [checkNames, if_pos named]
      rfl
    refine .inr ⟨_, _, bind_eq_of_ok (bind_eq_of_ok checked rfl) rfl,
      bind_eq_of_ok (bind_eq_of_ok checked rfl) rfl, rfl, rfl, ?_⟩
    exact Sql.opposed_leaf fun v judges => opposite v judges _
  · have failed : checkNames (Sql.nameIssues "column" column) q =
        .error (.invalid (Sql.nameIssues "column" column)) q := by
      rw [checkNames, if_neg named]
      rfl
    exact .inl ⟨_, bind_eq_error (bind_eq_error failed _) _, bind_eq_error (bind_eq_error failed _) _⟩

theorem withCondition_injective {c d : Clause} (same : withCondition q c = withCondition q d) :
    c = d := by
  have lists : q.select.conditions ++ [c] = q.select.conditions ++ [d] :=
    congrArg (fun q : Query => q.select.conditions) same
  exact List.singleton_inj.mp (List.append_cancel_left lists)

/-- A test is not the opposite of itself. -/
theorem not_negates_self {step other : Build Unit} {t : Test}
    (added : step q = .ok () (withCondition q (.leaf .and t))) (same : other q = step q) :
    ¬ Negates step other q := by
  rintro (⟨e, failed, -⟩ | ⟨c, d, first, second, -, -, opposed⟩)
  · cases added.symm.trans failed
  · have own : c = .leaf .and t :=
      withCondition_injective (EStateM.Result.ok.inj (first.symm.trans added)).2
    have again : d = .leaf .and t :=
      withCondition_injective (EStateM.Result.ok.inj (second.symm.trans (same.trans added))).2
    subst own again
    have excludes := opposed.holds Test.sample Sql.judges_sample
    simp [Condition.holds?] at excludes

theorem addCondition_comparison {name : String} (operator : String) (value : Value) :
    (do addCondition (← comparison .and (.text name) (some (.text operator)) (some value))) q =
      .ok () (withCondition q (.leaf .and (.comparing name operator value))) := by
  rw [comparison_eq]
  rfl

/-- What negation adds, on any query, for any column and with any calls in a group. Of a group, of a
comparison with a value alone, and of one by an operator of the table in any case of its letters, it
adds the opposite, true where that is false and unknown where that is unknown, and it fails where
that fails. By an operator that is not in the table it adds the comparison as it is, which is no
negation; and without a value, where the comparison fails, it compares with the operator. -/
theorem negation_goes_by_table (inner : Caller) (q : Query) (column : Value) :
    (column.isCallable = true → ∀ operator value,
      Negates (compareOrGroup inner .conditions .and column operator value)
        (whereNot inner column operator value) q) ∧
    (column.isCallable = false →
      (∀ value, Negates (compareOrGroup inner .conditions .and column (some value) none)
        (whereNot inner column (some value) none) q) ∧
      (∀ o word value, SameWord o word → (negatedOperator? word).isSome = true →
        Negates (compareOrGroup inner .conditions .and column (some (.text o)) (some value))
          (whereNot inner column (some (.text o)) (some value)) q) ∧
      (∀ o value, whereNot inner column (some (.text o)) (some value) q =
        compareOrGroup inner .conditions .and column
          (some (.text ((negatedOperator? (Text.uppercase o)).getD o))) (some value) q ∧
        (negatedOperator? (Text.uppercase o) = none → column.asText?.isSome = true → ¬ Negates
          (compareOrGroup inner .conditions .and column (some (.text o)) (some value))
          (whereNot inner column (some (.text o)) (some value)) q)) ∧
      compareOrGroup inner .conditions .and column none none q =
        .error (.valueNeeded column.shown) q ∧
      (column.asText?.isSome = true → whereNot inner column none none q =
        .ok () (withCondition q (.leaf .and (.compare column.shown "=" (.text "!=")))))) := by
  refine ⟨fun callable => negates_group callable, fun plain => ?_⟩
  have plain : ¬ column.isCallable = true := by simp [plain]
  have text (named : column.asText?.isSome = true) : ∃ name, column = .text name := by
    cases column with
    | text name => exact ⟨name, rfl⟩
    | _ => cases named
  have compared (operator value : Option Value) :
      compareOrGroup inner .conditions .and column operator value =
        (do addCondition (← comparison .and column operator value)) := by
    rw [compareOrGroup, if_neg plain]
    rfl
  have negated (o : String) (value : Value) :
      whereNot inner column (some (.text o)) (some value) = (do addCondition (← comparison .and column
        (some (.text ((negatedOperator? (Text.uppercase o)).getD o))) (some value))) := by
    rw [whereNot, if_neg plain]
  refine ⟨fun value => ?_, fun o word value spelled known => ?_, fun o value => ⟨?_, fun unknown named => ?_⟩,
    ?_, fun named => ?_⟩
  · have equal : Turned "=" "!=" := turned rfl
    rw [compared, whereNot, if_neg plain]
    exact negates_comparison (o := "=") fun v judges name =>
      Sql.comparing_negated judges rfl equal name value
  · obtain ⟨opposite, table⟩ := Option.isSome_iff_exists.mp known
    rw [compared, negated, uppercase_of_sameWord spelled (turned table), table]
    exact negates_comparison fun v judges name =>
      Sql.comparing_negated judges spelled (turned table) name value
  · rw [compared, negated]
  · have same : whereNot inner column (some (.text o)) (some value) =
        compareOrGroup inner .conditions .and column (some (.text o)) (some value) := by
      rw [compared, negated, unknown]
      rfl
    obtain ⟨name, rfl⟩ := text named
    refine not_negates_self (t := .comparing name o value) ?_ (congrFun same q)
    rw [compared]
    exact addCondition_comparison o value
  · rw [compared]
    rfl
  · obtain ⟨name, rfl⟩ := text named
    rw [whereNot, if_neg plain]
    exact addCondition_comparison "=" (.text "!=")

/-- A group of two conditions. -/
def eitherNumber : Value :=
  .recipe [.mk "where" [.text "a", .int 1] [], .mk "or_where" [.text "b", .int 2] []] false

/-- Asked for the posts without a missing date of deletion, negation adds the test for one; a pattern
and a group are negated. -/
theorem missing_date_is_not_negated :
    (whereNot plainEnv.call (.text "deleted_at") (some (.text "is")) (some .null) newPosts =
        .ok () (withCondition newPosts (.leaf .and (.null false "deleted_at"))) ∧
      ¬ Negates (compareOrGroup plainEnv.call .conditions .and (.text "deleted_at")
          (some (.text "is")) (some .null))
        (whereNot plainEnv.call (.text "deleted_at") (some (.text "is")) (some .null)) newPosts) ∧
    Negates (compareOrGroup plainEnv.call .conditions .and (.text "title") (some (.text "Like"))
        (some (.text "a%")))
      (whereNot plainEnv.call (.text "title") (some (.text "Like")) (some (.text "a%"))) newPosts ∧
    Negates (compareOrGroup plainEnv.call .conditions .and eitherNumber none none)
      (whereNot plainEnv.call eitherNumber none none) newPosts ∧
    whereNot plainEnv.call (.text "a") none none newPosts =
      .ok () (withCondition newPosts (.leaf .and (.compare "a" "=" (.text "!=")))) := by
  obtain ⟨-, -, -, other, -⟩ :=
    (negation_goes_by_table plainEnv.call newPosts (.text "deleted_at")).imp id (· rfl)
  obtain ⟨-, -, word, -⟩ :=
    (negation_goes_by_table plainEnv.call newPosts (.text "title")).imp id (· rfl)
  have group := (negation_goes_by_table plainEnv.call newPosts eitherNumber).1 rfl
  obtain ⟨-, -, -, -, -, missing⟩ :=
    (negation_goes_by_table plainEnv.call newPosts (.text "a")).imp id (· rfl)
  obtain ⟨same, unnegated⟩ := other "is" .null
  exact ⟨⟨same.trans rfl, unnegated (by decide) rfl⟩, word "Like" "LIKE" (.text "a%") (by decide) (by decide),
    group none none, missing rfl⟩

end Build

end Relata
