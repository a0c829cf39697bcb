import Relata.Proofs.Query.Negated
import Relata.Proofs.Sql.Behind

/-!
Calls that compare one value with several columns, or one column with several values. The first two
make a group of single comparisons, the other two a test on a list of values, which is a constant
where the list is empty. Main statement: such a call asks for what it is named after, besides what
the query asks for already. One alone has an exception: of no columns it does not ask that some
column satisfies the comparison, because a group of nothing is not written.
-/

namespace Relata

open Sql (Clause Condition Junction Select Test)

namespace Sql

/-- The truth of tests where a test on a list of values goes by the single comparisons, and where
`0=1` is false and `1=1` true. -/
structure Elementwise (v : Test → Bool) : Prop where
  never : ∀ t : Test, t.fragment = .plain "0=1" → v t = false
  always : ∀ t : Test, t.fragment = .plain "1=1" → v t = true
  among : ∀ column first rest, v (.among false column (first :: rest)) =
    (first :: rest).any fun item => v (.compare column "=" item)
  notAmong : ∀ column first rest, v (.among true column (first :: rest)) =
    !v (.among false column (first :: rest))

/-- The truth of tests on lists, as that of the other tests makes it. -/
def Test.byElements (v : Test → Bool) : Test → Bool
  | .among negated column items => (items.any fun item => v (.compare column "=" item)) != negated
  | t => v t

/-- Only a test on an empty list is written as a constant. -/
theorem Test.among_of_constant {t : Test} {text : String} (h : t.fragment = .plain text)
    (constant : text = "0=1" ∨ text = "1=1") :
    ∃ column, t = .among (text == "1=1") column [] := by
  have bare : t.fragment.values = [] := congrArg Fragment.values h
  have written : t.fragment.text = text := congrArg Fragment.text h
  have ends : text.toList.getLast? = some '1' := by obtain rfl | rfl := constant <;> rfl
  rw [← written] at ends
  cases t with
  | compare | between => cases bare
  | null negated column =>
    cases negated <;> simp [fragment, Fragment.plain] at ends
  | raw text bindings context =>
    have parenthesis : (fragment (.raw text bindings context)).text.toList = '(' :: text.toList ++ [')'] := by
      simp [fragment]
    rw [parenthesis, List.getLast?_concat] at ends
    cases ends
  | among negated column items =>
    cases items with
    | cons first rest => cases bare
    | nil =>
      cases negated with
      | false =>
        obtain rfl : "0=1" = text := written
        exact ⟨column, rfl⟩
      | true =>
        obtain rfl : "1=1" = text := written
        exact ⟨column, rfl⟩

/-- Single comparisons of any truth are those of tests that go by them. -/
theorem elementwise_byElements (v : Test → Bool) : Elementwise (Test.byElements v) where
  never t h := by
    obtain ⟨column, rfl⟩ := Test.among_of_constant h (.inl rfl)
    rfl
  always t h := by
    obtain ⟨column, rfl⟩ := Test.among_of_constant h (.inr rfl)
    rfl
  among column first rest := by simp [Test.byElements]
  notAmong column first rest := by simp [Test.byElements]

namespace Elementwise

variable {v : Test → Bool} (h : Elementwise v)
include h

/-- A test on a list, empty or not. -/
theorem among_iff (column : String) (items : List Value) :
    v (.among false column items) = true ↔ ∃ item ∈ items, v (.compare column "=" item) = true := by
  cases items with
  | nil => simp [h.never (.among false column []) rfl]
  | cons first rest => rw [h.among, List.any_eq_true]

theorem notAmong_iff (column : String) (items : List Value) :
    v (.among true column items) = true ↔
      ∀ item ∈ items, v (.compare column "=" item) = false := by
  cases items with
  | nil => simp [h.always (.among true column []) rfl]
  | cons first rest =>
    rw [h.notAmong, h.among, Bool.not_eq_true', List.any_eq_false]
    simp only [Bool.not_eq_true]

end Elementwise

namespace Condition

variable {α : Type} (v : α → Bool)

/-- Tests joined by OR hold if one of them does. -/
theorem truth_levelAfter_alternatives (level : Level) (ts : List α) :
    (levelAfter v level (ts.map (.leaf .or))).truth = (level.truth || ts.any v) := by
  induction ts generalizing level with
  | nil => simp [levelAfter]
  | cons t rest ih =>
    have step := ih ((level.joined .or).operand (v t))
    simpa [levelAfter, holds?, junction, Level.joined, Level.split, Level.operand, Level.truth,
      Bool.or_assoc] using step

/-- No tests at all hold too. -/
theorem allHold_alternatives (ts : List α) :
    allHold v (ts.map (.leaf .or)) = (ts.isEmpty || ts.any v) := by
  cases ts with
  | nil => rfl
  | cons t rest =>
    have others := truth_levelAfter_alternatives v (Level.start.operand (v t)) rest
    unfold allHold
    rw [List.map_cons, meaning_none_cons]
    simpa [holds?, Level.start, Level.operand, Level.truth] using others

theorem getD_holds?_group (j : Junction) (cs : List (Condition α)) :
    ((group j false cs).holds? v).getD true = allHold v cs := by
  simp [holds?, allHold]

/-- A condition joined by AND to siblings without an alternative restricts all of them, as far as it
says anything. -/
theorem allHold_concat {cs : List (Condition α)} (none_or : ∀ c ∈ cs.drop 1, c.junction ≠ .or)
    {c : Condition α} (own : c.junction = .and) :
    allHold v (cs ++ [c]) = (allHold v cs && (c.holds? v).getD true) := by
  unfold allHold
  induction cs with
  | nil => cases h : c.holds? v <;> simp [meaning, h]
  | cons d rest ih =>
    have later : ∀ e ∈ rest, e.junction ≠ .or := by simpa using none_or
    rw [List.cons_append, meaning_none_cons, meaning_none_cons]
    cases d.holds? v with
    | none => exact ih fun e he => later e (List.mem_of_mem_drop he)
    | some b =>
      have earlier : (levelAfter v (Level.start.operand b) rest).earlier = false :=
        earlier_levelAfter v _ later
      simp only [levelAfter_append, Option.getD_some]
      generalize levelAfter v (Level.start.operand b) rest = last at earlier ⊢
      cases h : c.holds? v <;>
        simp [levelAfter, h, own, Level.joined, Level.operand, Level.truth, earlier]

end Condition

end Sql

/-- A value without holes to be filled. -/
def Env.Filled (env : Env) (v : Value) : Prop :=
  ∀ inner q, Build.settle env inner v q = .ok v q

theorem Env.filled_text (env : Env) (s : String) : env.Filled (.text s) := fun _ _ => rfl

namespace Build

theorem settleItems_filled {env : Env} {items : List Value} (filled : ∀ item ∈ items, env.Filled item)
    (inner : Caller) (q : Query) : settleItems env inner items q = .ok items q := by
  induction items with
  | nil => rfl
  | cons item rest ih =>
    have later := ih fun other there => filled other (List.mem_cons_of_mem item there)
    exact bind_eq_ok (filled item List.mem_cons_self inner q) (bind_eq_ok later rfl)

end Build

theorem Env.filled_list {env : Env} {items : List Value}
    (filled : ∀ item ∈ items, env.Filled item) : env.Filled (.list items) := by
  intro inner q
  change (Value.list <$> Build.settleItems env inner items) q = _
  rw [map_eq_pure_bind]
  exact Build.bind_eq_ok (Build.settleItems_filled filled inner q) rfl

theorem Env.filled_texts (env : Env) (names : List String) : env.Filled (.list (names.map .text)) :=
  filled_list fun item there => by
    obtain ⟨name, -, rfl⟩ := List.mem_map.mp there
    exact env.filled_text name

/-- The call succeeds and changes nothing but the conditions, to which it adds one joined by AND; the
WHERE clause, as it is read, then asks for what it asked for before and for `also`. -/
def Env.Demands (env : Env) (c : Call) (q : Query) (v : Test → Bool) (also : Prop) : Prop :=
  ∃ (added : Clause) (earlier now : Bool),
    env.call c q = .ok .self (Build.withCondition q added) ∧ added.junction = .and ∧
    Condition.reading v q.select.whereTokens = some earlier ∧
    Condition.reading v (Build.withCondition q added).select.whereTokens = some now ∧
    (now = true ↔ earlier = true ∧ also)

namespace Build

/-- Conditions without an alternative take one more. -/
theorem reading_withCondition {q : Query} (joined : ∀ c ∈ q.select.conditions.drop 1, c.junction = .and)
    {added : Clause} (own : added.junction = .and) (v : Test → Bool) :
    ∃ earlier, Condition.reading v q.select.whereTokens = some earlier ∧
      Condition.reading v (withCondition q added).select.whereTokens =
        some (earlier && (added.holds? v).getD true) := by
  refine ⟨_, Condition.reading_row v _, ?_⟩
  have none_or : ∀ c ∈ q.select.conditions.drop 1, c.junction ≠ .or := fun c there or_ => by
    simp [joined c there] at or_
  have whole := Select.allHold_whereList_eq v (withCondition q added).select q.select.from_
  have before := Select.allHold_whereList_eq v q.select q.select.from_
  have more := Condition.allHold_concat v none_or own
  rw [Select.whereTokens, Condition.reading_row]
  change some (Condition.allHold v ((withCondition q added).select.whereList q.select.from_)) = _
  rw [whole, before]
  change some (Condition.allHold v (q.select.conditions ++ [added]) && _) = _
  rw [more]
  congr 1
  change (_ && _ && Condition.allHold v (q.select.deletionScope q.select.from_)) = _
  rw [Bool.and_right_comm]

theorem mapM_eq_ok {ι α : Type} {f : ι → Build α} {g : ι → α} {q : Query} (is : List ι)
    (each : ∀ i ∈ is, f i q = .ok (g i) q) : is.mapM f q = .ok (is.map g) q := by
  induction is with
  | nil => rfl
  | cons i rest ih =>
    rw [List.mapM_cons]
    have later := ih fun j there => each j (List.mem_cons_of_mem i there)
    exact bind_eq_ok (each i List.mem_cons_self) (bind_eq_ok later rfl)

theorem whereEach_texts (every : Bool) (columns : List String) (operator : String) (value : Value)
    (q : Query) : whereEach every (.list (columns.map .text)) (.text operator) value q =
      .ok () (withCondition q (.group .and false (columns.map fun column =>
        .leaf (if every then .and else .or) (.compare column operator value)))) := by
  refine bind_eq_ok rfl (@bind_eq_ok _ _ _ _ q q _ _ _ ?_ rfl)
  rw [List.mapM_map]
  exact mapM_eq_ok columns fun column there => rfl

theorem whereIn_text (negated : Bool) (column : String) (items : List Value) (q : Query) :
    whereIn .and negated (.text column) (.list items) q =
      .ok () (withCondition q (.leaf .and (.among negated column items))) := rfl

/-- Calls whose arguments have no holes. -/
theorem call_eq_of_filled {env : Env} {method : String} {m : Method} {args : List Value}
    {bound : List (Option Value)} {q after : Query} (named : Method.ofName? method = some m)
    (filled : ∀ arg ∈ args, env.Filled arg) (given : m.bind (.mk method args []) = .ok bound)
    (run : ∀ inner, perform env inner m bound q = .ok .self after) :
    env.call (.mk method args []) q = .ok .self after := by
  have called : Method.ofName? (Call.mk method args []).method = some m := named
  refine bind_eq_ok (settleItems_filled filled _ q) (bind_eq_ok rfl ?_)
  simp only [called]
  exact bind_eq_ok (ofExcept_eq_ok given q) (run _)

/-- A call that adds one condition joined by AND to such conditions. -/
theorem demands_of_call {env : Env} {c : Call} {q : Query} {added : Clause} {v : Test → Bool}
    {also : Prop} (joined : ∀ c ∈ q.select.conditions.drop 1, c.junction = .and)
    (run : env.call c q = .ok .self (withCondition q added)) (own : added.junction = .and)
    (truth : (added.holds? v).getD true = true ↔ also) : env.Demands c q v also := by
  obtain ⟨earlier, before, after⟩ := reading_withCondition joined own v
  exact ⟨added, earlier, _, run, own, before, after, by rw [Bool.and_eq_true, truth]⟩

section Calls

variable (env : Env) {q : Query}

theorem call_whereEach {method : String} {every : Bool}
    (named : Method.ofName? method = some (.whereEach every)) (columns : List String)
    (operator : String) {value : Value} (filled : env.Filled value) :
    env.call (.mk method [.list (columns.map .text), .text operator, value] []) q =
      .ok .self (withCondition q (.group .and false (columns.map fun column =>
        .leaf (if every then .and else .or) (.compare column operator value)))) := by
  refine call_eq_of_filled named ?_ rfl fun inner =>
    bind_eq_ok (bind_eq_ok rfl (whereEach_texts every columns operator value q)) rfl
  simp [env.filled_texts columns, env.filled_text operator, filled]

theorem call_whereIn {method : String} {negated : Bool}
    (named : Method.ofName? method = some (.whereIn .and negated)) (column : String)
    {items : List Value} (filled : ∀ item ∈ items, env.Filled item) :
    env.call (.mk method [.text column, .list items] []) q =
      .ok .self (withCondition q (.leaf .and (.among negated column items))) := by
  refine call_eq_of_filled named ?_ rfl fun inner =>
    bind_eq_ok (bind_eq_ok rfl (whereIn_text negated column items q)) rfl
  simp [env.filled_text column, Env.filled_list filled]

end Calls

/-- What calls on several columns or several values ask for, of a query whose conditions are joined
by AND, of any columns and values, and whatever the truth of the single comparisons: that the
comparison holds of every column, that the column equals one of the values or none of them, and
that the comparison holds of some column. The last asks for nothing where there is no column. -/
theorem calls_quantify_comparisons (env : Env) {q : Query}
    (joined : ∀ c ∈ q.select.conditions.drop 1, c.junction = .and) {v : Test → Bool}
    (elementwise : Sql.Elementwise v) :
    (∀ (columns : List String) (operator : String) (value : Value), env.Filled value →
      env.Demands (.mk "where_all" [.list (columns.map .text), .text operator, value] []) q v
        (∀ column ∈ columns, v (.compare column operator value) = true) ∧
      env.Demands (.mk "where_any" [.list (columns.map .text), .text operator, value] []) q v
        (columns ≠ [] → ∃ column ∈ columns, v (.compare column operator value) = true)) ∧
    ∀ (column : String) (items : List Value), (∀ item ∈ items, env.Filled item) →
      env.Demands (.mk "where_in" [.text column, .list items] []) q v
        (∃ item ∈ items, v (.compare column "=" item) = true) ∧
      env.Demands (.mk "where_not_in" [.text column, .list items] []) q v
        (∀ item ∈ items, v (.compare column "=" item) = false) := by
  refine ⟨fun columns operator value filled => ⟨?_, ?_⟩, fun column items filled => ⟨?_, ?_⟩⟩
  · refine demands_of_call joined (call_whereEach env rfl columns operator filled) rfl ?_
    have every := Condition.allHold_leaves v (columns.map (.compare · operator value))
    rw [List.map_map] at every
    rw [Condition.getD_holds?_group]
    refine (Bool.eq_iff_iff.mp every).trans ?_
    simp
  · refine demands_of_call joined (call_whereEach env rfl columns operator filled) rfl ?_
    have some_ := Condition.allHold_alternatives v (columns.map (.compare · operator value))
    rw [List.map_map] at some_
    rw [Condition.getD_holds?_group]
    refine (Bool.eq_iff_iff.mp some_).trans ?_
    cases columns <;> simp
  · exact demands_of_call joined (call_whereIn env rfl column filled) rfl
      (elementwise.among_iff column items)
  · exact demands_of_call joined (call_whereIn env rfl column filled) rfl
      (elementwise.notAmong_iff column items)

/-- Asked for posts of which no column is one, a query asks for all posts; asked for posts whose
state is in an empty list, for none. -/
theorem no_columns_keep_every_post :
    plainEnv.Filled (.int 1) ∧ Sql.Elementwise (Test.byElements Test.sample) ∧
    plainEnv.Demands (.mk "where_any" [.list [], .text "=", .int 1] []) newPosts
      (Test.byElements Test.sample) (([] : List String) ≠ [] →
        ∃ column ∈ ([] : List String), Test.sample (.compare column "=" (.int 1)) = true) ∧
    plainEnv.Demands (.mk "where_in" [.text "state", .list []] []) newPosts
      (Test.byElements Test.sample)
      (∃ item ∈ ([] : List Value), Test.sample (.compare "state" "=" item) = true) ∧
    (∃ after, plainEnv.call (.mk "where_any" [.list [], .text "=", .int 1] []) newPosts =
        .ok .self after ∧ after.statement.compile = .ok ⟨"SELECT * FROM posts", []⟩) ∧
    ∃ after, plainEnv.call (.mk "where_in" [.text "state", .list []] []) newPosts =
      .ok .self after ∧ after.statement.compile = .ok ⟨"SELECT * FROM posts WHERE 0=1", []⟩ := by
  have filled : plainEnv.Filled (.int 1) := fun _ _ => rfl
  have elementwise := Sql.elementwise_byElements Test.sample
  have unjoined : ∀ c ∈ newPosts.select.conditions.drop 1, c.junction = .and := by
    intro c there
    cases there
  obtain ⟨each, among⟩ := calls_quantify_comparisons plainEnv unjoined elementwise
  exact ⟨filled, elementwise, (each [] "=" (.int 1) filled).2,
    (among "state" [] fun item there => by cases there).1, ⟨_, rfl, rfl⟩, ⟨_, rfl, rfl⟩⟩

end Build

end Relata
