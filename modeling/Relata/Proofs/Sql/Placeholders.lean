import Relata.Proofs.Sql.Where
import Relata.Proofs.Sql.Woven

/-!
Placeholders of statements. Values are bound by the selected columns and by the tests of the WHERE
and HAVING clauses, in this order and select by select, so a statement is woven from those pieces:
joins, deletion scopes, grouping, ordering and limits hold no placeholder. Main statement: if raw
pieces have as many placeholders as values and names have none, then the placeholder of each value
stands in the piece that binds it.
-/

namespace Relata.Sql

open Fragment (placeholders placeholders_append)

/-- A raw piece has as many placeholders as values, and names have none. -/
def Test.Matched : Test → Prop
  | compare column operator _ => Unmarked column ∧ Unmarked operator
  | among _ column _ => Unmarked column
  | null _ column => Unmarked column
  | between _ column _ _ => Unmarked column
  | raw text bindings _ => placeholders text = bindings.length

/-- The names in a join have no placeholder. -/
structure Join.Unmarked (j : Join) : Prop where
  table : Sql.Unmarked j.table
  first : Sql.Unmarked j.first
  operator : Sql.Unmarked j.operator
  second : Sql.Unmarked j.second

def Order.Unmarked : Order → Prop
  | .by column _ => Sql.Unmarked column
  | .random => True

/-- The number of placeholders in names; one that is no text has none. -/
def marks (names : List Value) : Nat :=
  (names.map fun v => placeholders (v.asText?.getD "")).sum

/-- Names have no placeholder anywhere, raw conditions as many as values. How many the selected
columns have is left open. -/
structure Select.Matched (q : Select) : Prop where
  table : Unmarked q.from_
  joins : ∀ j ∈ q.joins, j.Unmarked
  conditions : ∀ t ∈ Condition.leavesOf q.conditions, t.Matched
  grouping : marks q.grouping = 0
  having : ∀ t ∈ Condition.leavesOf q.having, t.Matched
  orders : ∀ o ∈ q.orders, o.Unmarked

theorem placeholders_intercalate {separator : String} (unmarked : Unmarked separator) :
    ∀ texts : List String,
      placeholders (separator.intercalate texts) = (texts.map placeholders).sum
  | [] => by simp [placeholders]
  | [s] => by simp
  | s :: t :: rest => by
    have later := placeholders_intercalate unmarked (t :: rest)
    rw [String.intercalate_cons_cons]
    simp only [placeholders_append, unmarked, later, List.map_cons, List.sum_cons]
    omega

/-- A list of items has a placeholder for each. -/
theorem placeholders_items (items : List Value) :
    placeholders (", ".intercalate (items.map fun _ => "?")) = items.length := by
  rw [placeholders_intercalate rfl, List.map_map]
  have each : placeholders "?" = 1 := by decide
  simp [Function.comp_def, each, List.map_const']

theorem Test.Matched.balanced {t : Test} (h : t.Matched) : t.fragment.Balanced := by
  cases t with
  | compare column operator v =>
    obtain ⟨hc, ho⟩ := h
    simp_all [fragment, Fragment.Balanced, Unmarked, placeholders]
  | among negated column items =>
    have own : placeholders column = 0 := h
    have inside := placeholders_items items
    by_cases none : items = []
    · cases negated <;> simp [fragment, none, Fragment.Balanced, placeholders]
    · simp only [fragment, List.isEmpty_iff, none, if_false, Fragment.Balanced, placeholders_append,
        toString_text, own, inside]
      cases negated <;> simp [placeholders]
  | null negated column =>
    have own : placeholders column = 0 := h
    cases negated <;> simp_all [fragment, Fragment.Balanced, placeholders]
  | between negated column low high =>
    have own : placeholders column = 0 := h
    cases negated <;> simp_all [fragment, Fragment.Balanced, placeholders]
  | raw text bindings context =>
    have own : placeholders text = bindings.length := h
    simp_all [fragment, Fragment.Balanced, placeholders]

/-- Matched conditions have as many placeholders as values. -/
theorem balanced_compile {cs : List Clause} (matched : ∀ t ∈ Condition.leavesOf cs, t.Matched) :
    (Clause.compile cs).Balanced := by
  have carries := carries_compile cs
  rw [Fragment.Balanced, carries.values]
  refine carries.woven.placeholders_before fun c hc => ?_
  obtain ⟨t, ht, rfl⟩ := List.mem_map.mp hc
  exact (matched t ht).balanced

theorem Join.Unmarked.text {j : Join} (h : j.Unmarked) : Sql.Unmarked j.text := by
  obtain ⟨table, first, operator, second⟩ := h
  unfold Join.text
  split
  · simp_all [Sql.Unmarked, placeholders]
  · cases hk : j.kind <;> simp_all [Sql.Unmarked, placeholders, JoinKind.word]

theorem Order.Unmarked.text {o : Order} (h : o.Unmarked) : Sql.Unmarked o.text := by
  match o, h with
  | .by column descending, h =>
    have own : placeholders column = 0 := h
    cases descending <;> simp_all [Sql.Unmarked, placeholders, Order.text]
  | .random, _ => decide

namespace Select

theorem listed_eq {names : List Value} {s : String} (h : listed names = .ok s) :
    s = ", ".intercalate (names.filterMap Value.asText?) := by
  have texts : ∀ {names : List Value} {texts : List String},
      names.mapM Value.asText? = some texts → texts = names.filterMap Value.asText? := by
    intro names
    induction names with
    | nil => intro texts h; simp_all
    | cons v rest ih =>
      intro texts h
      rw [List.mapM_cons] at h
      obtain ⟨own, hown, h⟩ := Option.bind_eq_some_iff.mp h
      obtain ⟨others, hothers, h⟩ := Option.bind_eq_some_iff.mp h
      obtain rfl := Option.some.inj h
      obtain rfl := ih hothers
      simp [hown]
  unfold listed at h
  split at h
  · rename_i found hm
    obtain rfl := Except.ok.inj h
    rw [texts hm]
  · cases h

theorem placeholders_names (names : List Value) :
    placeholders (", ".intercalate (names.filterMap Value.asText?)) = marks names := by
  rw [placeholders_intercalate rfl]
  induction names with
  | nil => rfl
  | cons v rest ih => cases h : v.asText? <;> simp_all [marks, placeholders]

/-- The digits of a number hold no placeholder. -/
theorem unmarked_written {i : Int} {digits : String} (h : Numeral.written? i = some digits) :
    Unmarked digits := by
  unfold Numeral.written? at h
  have plain : '?' ∉ Nat.toDigits 10 i.natAbs := fun hm =>
    absurd (Nat.isDigit_of_mem_toDigits (by decide) (by decide) hm) (by decide)
  dsimp only at h
  split at h
  · cases h
  · obtain rfl := Option.some.inj h
    split <;> simp [Unmarked, placeholders, List.count_eq_zero, plain]

theorem unmarked_bound {keyword s : String} {count : Value} (unmarked : Unmarked keyword)
    (h : bound keyword count = .ok s) : Unmarked s := by
  unfold bound at h
  split at h
  · obtain rfl := Except.ok.inj h
    rfl
  · obtain ⟨rows, -, h⟩ := ok_of_bind h
    split at h
    · rename_i digits hd
      obtain rfl := Except.ok.inj h
      have own := unmarked_written hd
      simp_all [Unmarked, placeholders]
    · cases h

/-- The ordering and the limits hold no placeholder. -/
theorem unmarked_tail {q : Select} (orders : ∀ o ∈ q.orders, o.Unmarked) {s : String}
    (h : q.tail = .ok s) : Unmarked s := by
  have terms : placeholders (", ".intercalate (q.orders.map Order.text)) = 0 := by
    rw [placeholders_intercalate rfl, List.map_map, List.sum_eq_zero_iff_forall_eq_nat]
    intro n hn
    obtain ⟨o, ho, rfl⟩ := List.mem_map.mp hn
    exact (orders o ho).text
  obtain ⟨limit, hl, h⟩ := ok_of_bind h
  obtain ⟨offset, ho, h⟩ := ok_of_bind h
  obtain rfl := Except.ok.inj h
  have ul := unmarked_bound (by decide) hl
  have uo := unmarked_bound (by decide) ho
  simp only [Unmarked, placeholders_append, ul, uo, Nat.add_zero]
  split
  · rfl
  · simp only [placeholders_append, terms]
    decide

/-- The pieces that bind the values of a select: its columns, then the tests of the root conditions
and those of the HAVING clause, depth first. -/
def binders (q : Select) : List Fragment :=
  ⟨", ".intercalate (q.columns.filterMap Value.asText?), q.bindings⟩ ::
    ((Condition.leavesOf q.conditions).map Test.fragment ++
      (Condition.leavesOf q.having).map Test.fragment)

theorem carries_clause (keyword : String) (unmarked : Unmarked keyword) (cs : List Clause) :
    (clause keyword cs).Carries ((Condition.leavesOf cs).map Test.fragment) := by
  unfold clause
  dsimp only
  split
  · rename_i h
    have none : Condition.row cs = [] := (tokensText_eq_empty_iff _).mp (String.isEmpty_iff.mp h)
    rw [← Condition.leaf?_row cs, none]
    exact .plain rfl
  · have word : Unmarked s!" {keyword} " := by simp_all [Unmarked, placeholders]
    exact (Fragment.Carries.plain word).append (carries_compile cs)

/-- The deletion scope is one unmarked test or none. -/
theorem deletionScope_eq (q : Select) {table : String} (unmarked : Unmarked table) :
    q.deletionScope table = [] ∨ ∃ t : Test, q.deletionScope table = [.leaf .and t] ∧
      t.Matched ∧ Unmarked t.fragment.text ∧ t.fragment.values = [] := by
  have own : Unmarked (table ++ ".deleted_at") := by simp_all [Unmarked, placeholders]
  have test : ∀ negated, Unmarked (Test.null negated (table ++ ".deleted_at")).fragment.text := by
    intro negated
    cases negated <;> simp_all [Test.fragment, Unmarked, placeholders]
  unfold deletionScope
  split
  · exact .inl rfl
  · cases q.trashed with
    | included => exact .inl rfl
    | hidden => exact .inr ⟨_, rfl, own, test false, rfl⟩
    | only => exact .inr ⟨_, rfl, own, test true, rfl⟩

theorem leavesOf_whereList (q : Select) (table : String) :
    Condition.leavesOf (q.whereList table) =
      Condition.leavesOf q.conditions ++ Condition.leavesOf (q.deletionScope table) := by
  unfold whereList
  dsimp only
  split
  · simp [Condition.leavesOf, Condition.leaves]
  · exact Condition.leavesOf_append _ _

/-- The deletion scope binds nothing. -/
theorem carries_where (q : Select) {table : String} (unmarked : Unmarked table) :
    (clause "WHERE" (q.whereList table)).Carries
      ((Condition.leavesOf q.conditions).map Test.fragment) := by
  have whole := carries_clause "WHERE" (by decide) (q.whereList table)
  rw [leavesOf_whereList, List.map_append] at whole
  obtain none | ⟨t, one, -, text, values⟩ := deletionScope_eq q unmarked
  · simpa [none, Condition.leavesOf] using whole
  · rw [one] at whole
    exact whole.dropLast text values

/-- Matched conditions stay so with the deletion scope. -/
theorem matched_whereList {q : Select} {table : String} (unmarked : Unmarked table)
    (matched : ∀ t ∈ Condition.leavesOf q.conditions, t.Matched) :
    ∀ t ∈ Condition.leavesOf (q.whereList table), t.Matched := by
  intro t ht
  rw [leavesOf_whereList] at ht
  obtain ht | ht := List.mem_append.mp ht
  · exact matched t ht
  · obtain none | ⟨u, one, hu, -⟩ := deletionScope_eq q unmarked
    · simp [none, Condition.leavesOf] at ht
    · obtain rfl : t = u := by simpa [one, Condition.leavesOf, Condition.leaves] using ht
      exact hu

theorem carries_joins {joins : List Join} (h : ∀ j ∈ joins, j.Unmarked) :
    (Fragment.concat (joins.map fun j => .plain (" " ++ j.text))).Carries [] := by
  induction joins with
  | nil => exact .plain rfl
  | cons j rest ih =>
    have own : Unmarked (" " ++ j.text) := by
      have text := (h j (by simp)).text
      simp_all [Unmarked, placeholders]
    exact (Fragment.Carries.plain own).append (ih fun k hk => h k (by simp [hk]))

/-- The body with its columns as a piece of their own. -/
theorem bodyOf_eq (q : Select) (columns grouping : String) :
    q.bodyOf columns grouping =
      .plain ("SELECT " ++ if q.distinct then "DISTINCT " else "") ++ ⟨columns, q.bindings⟩ ++
        .plain (" FROM " ++ q.from_) ++ .concat (q.joins.map fun j => .plain (" " ++ j.text)) ++
        clause "WHERE" (q.whereList q.from_) ++
        .plain (if q.grouping.isEmpty then "" else " GROUP BY " ++ grouping) ++
        clause "HAVING" q.having := by
  simp [bodyOf, Fragment.plain, Fragment.mk_append, String.append_assoc]

/-- The body is woven from the columns and the tests. -/
theorem carries_body {q : Select} (matched : q.Matched) {f : Fragment} (h : q.body = .ok f) :
    f.Carries q.binders := by
  obtain ⟨columns, hc, h⟩ := ok_of_bind h
  obtain ⟨grouping, hg, h⟩ := ok_of_bind h
  obtain rfl := Except.ok.inj h
  obtain rfl := listed_eq hc
  have group : Unmarked (if q.grouping.isEmpty then "" else " GROUP BY " ++ grouping) := by
    have own : placeholders grouping = 0 := by
      rw [listed_eq hg, placeholders_names, matched.grouping]
    split <;> simp_all [Unmarked, placeholders]
  have before : Unmarked ("SELECT " ++ if q.distinct then "DISTINCT " else "") := by
    cases q.distinct <;> decide
  have after : Unmarked (" FROM " ++ q.from_) := by
    have table := matched.table
    simp_all [Unmarked, placeholders]
  rw [bodyOf_eq]
  have columns := ((Fragment.Carries.plain before).append
    (.single ⟨", ".intercalate (q.columns.filterMap Value.asText?), q.bindings⟩)).append
    (.plain after)
  have whole := (((columns.append (carries_joins matched.joins)).append
    (carries_where q matched.table)).append (.plain group)).append
    (carries_clause "HAVING" (by decide) q.having)
  simpa only [binders, List.nil_append, List.append_nil, List.append_assoc, List.cons_append]
    using whole

/-- As many placeholders as values, in names and raw pieces alike, the selected columns included. -/
structure Balanced (q : Select) : Prop extends q.Matched where
  columns : marks q.columns = q.bindings.length

theorem Balanced.binders {q : Select} (h : q.Balanced) : ∀ c ∈ q.binders, c.Balanced := by
  intro c hc
  obtain rfl | hc := List.mem_cons.mp hc
  · exact (placeholders_names q.columns).trans h.columns
  · obtain hc | hc := List.mem_append.mp hc
    · obtain ⟨t, ht, rfl⟩ := List.mem_map.mp hc
      exact (h.conditions t ht).balanced
    · obtain ⟨t, ht, rfl⟩ := List.mem_map.mp hc
      exact (h.having t ht).balanced

theorem balanced_body {q : Select} (balanced : q.Balanced) {f : Fragment} (h : q.body = .ok f) :
    f.Balanced := by
  have carries := carries_body balanced.toMatched h
  rw [Fragment.Balanced, carries.values]
  exact carries.woven.placeholders_before balanced.binders

end Select

namespace Statement

/-- The selects in the order in which they are written. -/
def selects (s : Statement) : List Select := s.select :: s.branches.map Branch.select

/-- The pieces that bind the values of a statement, select by select. -/
def binders (s : Statement) : List Fragment := s.selects.flatMap Select.binders

theorem carries_branches {branches : List Branch} (matched : ∀ b ∈ branches, b.select.Matched)
    {fs : List Fragment} (h : branches.mapM branchFragment = .ok fs) :
    (Fragment.concat fs).Carries (branches.flatMap fun b => b.select.binders) := by
  induction branches generalizing fs with
  | nil =>
    obtain rfl := Except.ok.inj h
    exact .plain rfl
  | cons b rest ih =>
    rw [List.mapM_cons] at h
    obtain ⟨own, hown, h⟩ := ok_of_bind h
    obtain ⟨others, hothers, h⟩ := ok_of_bind h
    obtain rfl := Except.ok.inj h
    have word : Unmarked (if b.all then " UNION ALL " else " UNION ") := by
      cases b.all <;> decide
    unfold branchFragment at hown
    cases hb : b.select.body with
    | error e => simp [hb, Except.map] at hown
    | ok body =>
      rw [hb] at hown
      obtain rfl := Except.ok.inj hown
      have whole := (Fragment.Carries.plain word).append
        (Select.carries_body (matched b (by simp)) hb)
      exact whole.append (ih (fun c hc => matched c (by simp [hc])) hothers)

/-- A statement is woven from the pieces of its selects. -/
theorem carries_compile {s : Statement} (matched : ∀ q ∈ s.selects, q.Matched) {f : Fragment}
    (h : s.compile = .ok f) : f.Carries s.binders := by
  obtain ⟨body, hb, h⟩ := ok_of_bind h
  obtain ⟨branches, hbs, h⟩ := ok_of_bind h
  obtain ⟨tail, ht, h⟩ := ok_of_bind h
  obtain rfl := Except.ok.inj h
  have own := matched s.select (by simp [selects])
  have others : ∀ b ∈ s.branches, b.select.Matched := fun b hb =>
    matched b.select (by simp [selects]; exact .inr ⟨b, hb, rfl⟩)
  have whole := ((Select.carries_body own hb).append (carries_branches others hbs)).append
    (.plain (Select.unmarked_tail own.orders ht))
  simpa [binders, selects, List.flatMap_map] using whole

/-- What is handed out is the statement as it is written, if that passes the guard. -/
theorem checked_eq_ok_iff {s : Statement} {context : String} {f : Fragment} :
    s.checked context = .ok f ↔
      s.compile = .ok f ∧ Guard.checkStatement f.text context = .ok () := by
  constructor
  · intro h
    obtain ⟨compiled, hc, h⟩ := ok_of_bind h
    obtain ⟨⟨⟩, hg, h⟩ := ok_of_bind h
    obtain rfl := Except.ok.inj h
    exact ⟨hc, hg⟩
  · rintro ⟨hc, hg⟩
    simp [checked, hc, hg, bind, Except.bind, pure, Except.pure]

/-- The values of a statement are those of its selects in turn: columns, root conditions depth
first, HAVING depth first. Each has the placeholder of the same number, and that one stands in the
piece that binds it. -/
theorem placeholders_aligned {s : Statement} (balanced : ∀ q ∈ s.selects, q.Balanced)
    {context : String} {f : Fragment} (h : s.checked context = .ok f) :
    placeholders f.text = f.values.length ∧
      f.values = s.binders.flatMap Fragment.values ∧
      ∀ i < f.values.length, Aligned s.binders f.text i := by
  have carries := carries_compile (fun q hq => (balanced q hq).toMatched) (checked_eq_ok_iff.mp h).1
  have pieces : ∀ c ∈ s.binders, c.Balanced := by
    intro c hc
    obtain ⟨q, hq, hc⟩ := List.mem_flatMap.mp hc
    exact (balanced q hq).binders c hc
  refine ⟨?_, carries.values, fun i hi => ?_⟩
  · rw [carries.values, carries.woven.placeholders_before pieces]
  · rw [carries.values] at hi
    exact carries.woven.aligned pieces hi

/-- Values in every place that has some: a column, a raw condition, HAVING, and a branch. -/
def rankedPosts : Statement where
  select :=
    { Select.all ⟨0, "Post", "posts", .text "default", true⟩ .null with
      columns := [.text "? AS n"]
      bindings := [.int 1]
      conditions := [.group .or true [], .leaf .and (.raw "a = ?" [.int 2] "where_raw")]
      having := [.leaf .and (.compare "n" ">" (.int 3))]
      trashed := .included }
  branches :=
    [⟨false, { Select.all ⟨1, "Draft", "d", .text "default", false⟩ .null with
      conditions := [.leaf .and (.among false "b" [.int 4, .int 5])] }⟩]

/-- What is written for `rankedPosts`. -/
def rankedPostsFragment : Fragment where
  text :=
    "SELECT ? AS n FROM posts WHERE (a = ?) HAVING n > ? UNION SELECT * FROM d WHERE b IN (?, ?)"
  values := [.int 1, .int 2, .int 3, .int 4, .int 5]

theorem compile_rankedPosts : rankedPosts.compile = .ok rankedPostsFragment := by
  have columns : Select.listed [.text "? AS n"] = .ok "? AS n" := by cbv
  have all : Select.listed [.text "*"] = .ok "*" := by cbv
  have none : Select.listed [] = .ok "" := by cbv
  have tail : rankedPosts.select.tail = .ok "" := by cbv
  rw [compile, tail]
  simp [rankedPosts, rankedPostsFragment, branchFragment, Select.body, Select.all, columns, all,
    none, Select.bodyOf, Select.from_, Value.truthy, Select.clause, Select.whereList,
    Select.deletionScope, Clause.compile, Condition.row, Condition.rowFrom, Condition.tokens,
    Token.fragment, Test.fragment, Fragment.concat, Fragment.empty, Fragment.plain,
    Fragment.mk_append, bind, Except.bind, pure, Except.pure, Except.map, List.mapM_cons]

theorem checked_rankedPosts : rankedPosts.checked "statement" = .ok rankedPostsFragment := by
  refine checked_eq_ok_iff.mpr ⟨compile_rankedPosts, ?_⟩
  unfold rankedPostsFragment
  apply Guard.checkStatement_ofList
  · decide +kernel
  · decide +kernel

theorem balanced_rankedPosts : ∀ q ∈ rankedPosts.selects, q.Balanced := by
  intro q hq
  obtain rfl | rfl : q = rankedPosts.select ∨ q = (rankedPosts.branches.map Branch.select)[0] := by
    simpa [selects, rankedPosts] using hq
  all_goals
    refine ⟨⟨by decide, ?_, ?_, by decide, ?_, ?_⟩, by decide⟩ <;>
      simp [rankedPosts, Select.all, Condition.leavesOf, Condition.leaves, Test.Matched,
        Order.Unmarked, Sql.Unmarked, placeholders]

theorem ranked_posts_aligned :
    (∀ q ∈ rankedPosts.selects, q.Balanced) ∧
    rankedPosts.checked "statement" = .ok rankedPostsFragment ∧
    rankedPostsFragment.values = rankedPosts.binders.flatMap Fragment.values ∧
    ∀ i < 5, Aligned rankedPosts.binders rankedPostsFragment.text i := by
  have whole := placeholders_aligned balanced_rankedPosts checked_rankedPosts
  exact ⟨balanced_rankedPosts, checked_rankedPosts, whole.2.1, whole.2.2⟩

end Statement

end Relata.Sql
