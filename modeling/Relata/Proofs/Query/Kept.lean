import Relata.Proofs.Query.Matched

/-!
The state that matched calls keep. In a kept select names hold no placeholder, the conditions are
matched, and the columns have no more placeholders than values; they have as many unless columns
were replaced. Here are the steps that need nothing but the query itself.
-/

namespace Relata

open Sql (Clause Condition Junction Pivot Select Unmarked marks)
open Sql.Fragment (placeholders)

namespace Sql

theorem Condition.mem_leavesOf {α : Type} {t : α} {cs : List (Condition α)} :
    t ∈ Condition.leavesOf cs ↔ ∃ c ∈ cs, t ∈ c.leaves := by
  induction cs with
  | nil => simp [leavesOf]
  | cons c rest ih => simp [leavesOf, ih]

theorem marks_append (xs ys : List Value) : marks (xs ++ ys) = marks xs + marks ys := by
  simp [marks]

theorem marks_singleton (v : Value) : marks [v] = placeholders (v.asText?.getD "") := by
  simp [marks]

/-- All tests of the condition are matched. -/
def Clause.Matched (c : Clause) : Prop := ∀ t ∈ c.leaves, t.Matched

/-- A join has its names from the record. -/
theorem Join.unmarked_of_read {r : Record} {j : Join} (names : ∀ e ∈ r, Sql.Unmarked e.2.shown)
    (h : (Join.read r).toExcept = .ok j) : j.Unmarked := by
  obtain ⟨parts, hp, h⟩ := Checked.good_of_andThen (Checked.good_of_toExcept h)
  obtain ⟨f4, second, h4, hsecond, e4⟩ := Checked.good_of_seq hp
  obtain ⟨f3, operator, h3, hoperator, e3⟩ := Checked.good_of_seq h4
  obtain ⟨f2, first, h2, hfirst, e2⟩ := Checked.good_of_seq h3
  obtain ⟨f1, table, h1, htable, e1⟩ := Checked.good_of_seq h2
  obtain ⟨kind, hkind, e0⟩ := Checked.good_of_map h1
  subst e4 e3 e2 e1 e0
  have given : ∀ {name : String} {o : Option String}, r.text? name = .good o →
      Sql.Unmarked (o.getD "") := by
    intro name o ho
    cases o with
    | none => rfl
    | some s => exact names _ (Record.mem_of_text? ho)
  have own := names _ (Record.mem_of_text htable)
  have one := given hfirst
  have two := given hoperator
  have three := given hsecond
  split at h
  · rename_i heq
    cases heq
    cases h
    exact ⟨own, one, two, three⟩
  · rename_i heq
    cases heq
    cases h
    exact ⟨own, one, two, three⟩
  · cases h
/-- A raw condition is the text as it is given. -/
theorem Clause.raw_eq_ok {junction : Junction} {text : Value} {bindings : List Value}
    {context : String} {c : Clause} (h : Clause.raw junction text bindings context = .ok c) :
    ∃ s, text = .text s ∧ c = .leaf junction (.raw s bindings context) := by
  obtain ⟨-, -, h⟩ := ok_of_bind h
  split at h
  · exact ⟨_, rfl, (Except.ok.inj h).symm⟩
  · cases h

namespace Select

/-- Names hold no placeholder, conditions are matched, and every placeholder of the columns has its
value. Values without a placeholder are those of columns that were replaced. -/
structure Kept (replacing : Bool) (s : Select) : Prop where
  matched : s.Matched
  source : Unmarked s.source.table
  pivot : ∀ p ∈ s.pivot, Unmarked p.table ∧ Unmarked p.label.shown
  columns : marks s.columns ≤ s.bindings.length
  claimed : replacing = false → marks s.columns = s.bindings.length

variable {replacing : Bool} {s : Select}

theorem Kept.all {source : Source} {table : Value} (own : Unmarked source.table)
    (other : table.truthy = true → Unmarked table.shown) : (all source table).Kept replacing where
  matched :=
    { table := by
        unfold from_
        split
        · rename_i h; exact other h
        · exact own
      joins := by simp [Select.all]
      conditions := by simp [Select.all, Condition.leavesOf]
      grouping := rfl
      having := by simp [Select.all, Condition.leavesOf]
      orders := by simp [Select.all] }
  source := own
  pivot := by simp [Select.all]
  columns := Nat.le_of_eq rfl
  claimed := fun _ => rfl

theorem Kept.loosen (h : s.Kept replacing) : s.Kept true :=
  { h with claimed := fun h => by cases h }

theorem Kept.addCondition (h : s.Kept replacing) {c : Clause} (hc : c.Matched) :
    ({ s with conditions := s.conditions ++ [c] } : Select).Kept replacing :=
  { h with
    matched :=
      { h.matched with
        conditions := by
          intro t ht
          rw [Condition.leavesOf_append] at ht
          obtain ht | ht := List.mem_append.mp ht
          · exact h.matched.conditions t ht
          · exact hc t (by simpa [Condition.leavesOf] using ht) } }

theorem Kept.addHaving (h : s.Kept replacing) {c : Clause} (hc : c.Matched) :
    ({ s with having := s.having ++ [c] } : Select).Kept replacing :=
  { h with
    matched :=
      { h.matched with
        having := by
          intro t ht
          rw [Condition.leavesOf_append] at ht
          obtain ht | ht := List.mem_append.mp ht
          · exact h.matched.having t ht
          · exact hc t (by simpa [Condition.leavesOf] using ht) } }

/-- Another table may stand in for that of the model. -/
theorem Kept.onTable (h : s.Kept replacing) {table : Value} (own : Unmarked table.shown) :
    ({ s with table := table } : Select).Kept replacing :=
  { h with
    matched :=
      { h.matched with
        table := by
          unfold from_
          split
          · exact own
          · exact h.source } }

/-- Columns whose placeholders have their values come after the others. -/
theorem Kept.addColumns (h : s.Kept replacing) (columns : List Value) {bindings : List Value}
    (own : marks columns = bindings.length) (pivot : Option Pivot)
    (names : ∀ p ∈ pivot, Unmarked p.table ∧ Unmarked p.label.shown) :
    ({ s with
      columns := s.columns ++ columns
      bindings := s.bindings ++ bindings
      pivot := pivot } : Select).Kept replacing where
  matched := { h.matched with }
  source := h.source
  pivot := names
  columns := by
    have bound := h.columns
    simp only [marks_append, List.length_append, own]
    omega
  claimed := fun hr => by
    have exactly := h.claimed hr
    simp only [marks_append, List.length_append, own, exactly]

end Select

end Sql

/-- The select and those of the branches are kept. -/
def Query.Kept (replacing : Bool) (q : Query) : Prop :=
  q.select.Kept replacing ∧ ∀ b ∈ q.branches, b.2.select.Kept replacing

/-- Where columns are not replaced, less is left open. -/
theorem Query.Kept.loosen {replacing : Bool} {q : Query} (h : q.Kept replacing) : q.Kept true :=
  ⟨h.1.loosen, fun b hb => (h.2 b hb).loosen⟩

/-- Whether a query is one of these does not depend on what it loads with its rows. -/
def Query.Blind (I : Query → Prop) : Prop :=
  ∀ (q : Query) (loads : LoadRequest), I q → I { q with loads := loads }

namespace Query.Blind

open Build

variable {I : Query → Prop} (blind : Blind I)
include blind

theorem keeps_modifyLoads {f : LoadRequest → LoadRequest} : Keeps I (modifyLoads f) fun _ => True :=
  .changeLoads fun q hq => blind q _ hq

theorem keeps_request {path : Value} {columns : List Value} {callback : Value} :
    Keeps I (request path columns callback) fun _ => True := by
  have refined : Keeps I
      (if !callback.isNull then do checkKey path; modifyLoads (·.refine path callback)
        else pure ()) fun _ => True := by
    split
    · exact steady_checkKey.keeps.seq blind.keeps_modifyLoads
    · exact .pure trivial
  unfold request
  refine blind.keeps_modifyLoads.seq ?_
  dsimp only
  split
  · exact steady_checkKey.keeps.seq (blind.keeps_modifyLoads.seq refined)
  · exact refined

theorem keeps_withPath {path callback : Value} : Keeps I (withPath path callback) fun _ => True :=
  (Keeps.ofExcept fun _ _ => trivial).bind fun _ _ => blind.keeps_request

theorem keeps_with_ {relations callback : Value} : Keeps I (with_ relations callback) fun _ => True := by
  unfold with_
  split
  · exact blind.keeps_withPath
  · refine .forM fun entry _ => ?_
    obtain ⟨path, value⟩ := entry
    change Keeps _ (withEntry path value) _
    unfold withEntry
    split
    · exact (Keeps.ofExcept fun _ _ => trivial).bind fun _ _ => blind.keeps_request
    · exact blind.keeps_withPath
  · exact steady_itemsOf.keeps.bind fun _ _ => .forM fun _ _ => blind.keeps_withPath

/-- What holds of the query for all rows of a model holds of a new query on it. -/
theorem query {m : Model} (start : I (.blank m.source .null)) {q : Query} (h : m.query = .ok q) : I q := by
  unfold Model.query at h
  dsimp only at h
  split at h
  · obtain rfl := Except.ok.inj h
    exact start
  · unfold Build.finish at h
    split at h
    · rename_i after run
      obtain rfl := Except.ok.inj h
      exact (blind.keeps_with_ _ start _ _ run).1
    · cases h

end Query.Blind

namespace Build

variable {replacing : Bool} {I : Query → Prop}

theorem keeps_modifySelect {f : Select → Select}
    (h : ∀ s : Select, s.Kept replacing → (f s).Kept replacing) :
    Keeps (Query.Kept replacing) (modifySelect f) fun _ => True :=
  .changeSelect fun q hq => ⟨h q.select hq.1, hq.2⟩

theorem keeps_modifyLoads {f : LoadRequest → LoadRequest} :
    Keeps (Query.Kept replacing) (modifyLoads f) fun _ => True :=
  Query.Blind.keeps_modifyLoads fun _ _ kept => kept

theorem keeps_addTo (target : Target) {c : Clause} (hc : c.Matched) :
    Keeps (Query.Kept replacing) (addTo target c) fun _ => True := by
  apply keeps_modifySelect
  intro s hs
  cases target with
  | conditions => exact hs.addCondition hc
  | having => exact hs.addHaving hc

theorem keeps_with_ {relations callback : Value} :
    Keeps (Query.Kept replacing) (with_ relations callback) fun _ => True :=
  Query.Blind.keeps_with_ fun _ _ kept => kept

theorem keeps_without {values : List Value} :
    Keeps (Query.Kept replacing) (without values) fun _ => True := by
  unfold without
  refine Keeps.seq (.forM fun _ _ => steady_checkKey.keeps) ?_
  refine Keeps.get.bind fun q _ => ?_
  exact Keeps.seq (.forM fun _ _ => steady_checkKey.keeps) keeps_modifyLoads

/-- A comparison whose names hold no placeholder. -/
theorem keeps_comparison {junction : Junction} {column : Value} {operator value : Option Value}
    (own : Unmarked column.shown) (word : value.isSome → ∀ o ∈ operator, Unmarked o.shown) :
    Keeps I (comparison junction column operator value) Sql.Clause.Matched := by
  have null : ∀ negated, Sql.Clause.Matched (.leaf junction (.null negated column.shown)) := by
    intro negated t ht
    obtain rfl := List.mem_singleton.mp ht
    exact own
  have compare : ∀ o v : Value, Unmarked o.shown →
      Sql.Clause.Matched (.leaf junction (.compare column.shown o.shown v)) := by
    intro o v ho t ht
    obtain rfl := List.mem_singleton.mp ht
    exact ⟨own, ho⟩
  have rest : ∀ o v : Value, Unmarked o.shown → Keeps I
      (if v.isNull && equalWords.contains (o.asText?.getD "") then do
        checkNames (Sql.nameIssues "column" column)
        return .leaf junction (.null false column.shown)
      else if v.isNull && unequalWords.contains (o.asText?.getD "") then do
        checkNames (Sql.nameIssues "column" column)
        return .leaf junction (.null true column.shown)
      else do
        checkNames (Sql.nameIssues "column" column ++ Sql.nameIssues "operator" o)
        return .leaf junction (.compare column.shown o.shown v)) Sql.Clause.Matched := by
    intro o v ho
    split
    · exact steady_checkNames.keeps.seq (.pure (null false))
    · split
      · exact steady_checkNames.keeps.seq (.pure (null true))
      · exact steady_checkNames.keeps.seq (.pure (compare o v ho))
  cases value with
  | some v =>
    have given : Unmarked (operator.getD .null).shown := by
      cases operator with
      | some o => exact word rfl o rfl
      | none => decide
    exact rest (operator.getD .null) v given
  | none =>
    cases operator with
    | some v => exact rest (.text "=") v (by decide)
    | none => exact .throw

theorem keeps_addRaw {target : Target} {junction : Junction} {text bindings : Value}
    {context : String} (own : ∀ s, text = .text s → ∀ items, Answers (bindingsOf bindings) items →
      placeholders s = items.length) :
    Keeps (Query.Kept replacing) (addRaw target junction text bindings context)
      fun _ => True := by
  unfold addRaw
  refine steady_bindingsOf.keeps.answers.bind fun items hitems => ?_
  refine Keeps.bind (.ofExcept fun c hc => ?_) fun c hc => keeps_addTo target hc
  obtain ⟨s, rfl, rfl⟩ := Clause.raw_eq_ok hc
  intro t ht
  obtain rfl := List.mem_singleton.mp ht
  exact own s rfl items hitems.2

theorem keeps_addFragment {junction : Junction} {f : Sql.Fragment} {context : String}
    (own : f.Balanced) :
    Keeps (Query.Kept replacing) (addFragment junction f context) fun _ => True := by
  unfold addFragment
  refine Keeps.bind (.ofExcept fun c hc => ?_) fun c hc => keeps_addTo .conditions hc
  obtain ⟨s, hs, rfl⟩ := Clause.raw_eq_ok hc
  obtain rfl := Value.text.inj hs
  intro t ht
  obtain rfl := List.mem_singleton.mp ht
  exact own

theorem keeps_whereIn {junction : Junction} {negated : Bool} {column values : Value}
    (own : Unmarked column.shown) :
    Keeps (Query.Kept replacing) (whereIn junction negated column values) fun _ => True := by
  unfold whereIn
  refine steady_itemsOf.keeps.bind fun items _ => ?_
  refine steady_checkNames.keeps.seq (keeps_addTo .conditions ?_)
  intro t ht
  obtain rfl := List.mem_singleton.mp ht
  exact own

theorem keeps_whereNull {junction : Junction} {negated : Bool} {column : Value}
    (own : Unmarked column.shown) :
    Keeps (Query.Kept replacing) (whereNull junction negated column) fun _ => True := by
  unfold whereNull
  refine steady_checkNames.keeps.seq (keeps_addTo .conditions ?_)
  intro t ht
  obtain rfl := List.mem_singleton.mp ht
  exact own

theorem keeps_whereBetween {junction : Junction} {negated : Bool} {column values : Value}
    (own : Unmarked column.shown) :
    Keeps (Query.Kept replacing) (whereBetween junction negated column values) fun _ => True := by
  unfold whereBetween
  refine steady_itemsOf.keeps.bind fun items _ => ?_
  split
  · refine steady_checkNames.keeps.seq (keeps_addTo .conditions ?_)
    intro t ht
    obtain rfl := List.mem_singleton.mp ht
    exact own
  · exact .throw

theorem keeps_whereColumn {junction : Junction} {first operator : Value} {second : Option Value}
    (one : Unmarked first.shown) (two : Unmarked operator.shown)
    (three : ∀ v ∈ second, Unmarked v.shown) :
    Keeps (Query.Kept replacing) (whereColumn junction first operator second) fun _ => True := by
  unfold whereColumn
  apply keeps_addFragment
  cases second with
  | none => simp_all [Sql.Fragment.Balanced, Unmarked, placeholders]
  | some v => simp_all [Sql.Fragment.Balanced, Unmarked, placeholders]

theorem keeps_whereEach {every : Bool} {columns operator value : Value}
    (own : ∀ items, Answers (itemsOf columns) items → ∀ v ∈ items, Unmarked v.shown)
    (word : Unmarked operator.shown) :
    Keeps (Query.Kept replacing) (whereEach every columns operator value) fun _ => True := by
  unfold whereEach
  refine steady_itemsOf.keeps.answers.bind fun items hitems => ?_
  refine Keeps.bind (.mapM (R := Sql.Clause.Matched) fun v hv => ?_) fun children matched => ?_
  · refine steady_checkNames.keeps.seq (.pure ?_)
    intro t ht
    obtain rfl := List.mem_singleton.mp ht
    exact ⟨own items hitems.2 v hv, word⟩
  · apply keeps_addTo .conditions
    intro t ht
    obtain ⟨c, hc, ht⟩ := Sql.Condition.mem_leavesOf.mp (by simpa [Condition.leaves] using ht)
    exact matched c hc t ht

theorem keeps_join {kind : Sql.JoinKind} {table first operator second : Value}
    (ht : Unmarked table.shown) (hf : Unmarked first.shown) (ho : Unmarked operator.shown)
    (hs : Unmarked second.shown) :
    Keeps (Query.Kept replacing) (join kind table first operator second) fun _ => True := by
  unfold join
  refine Keeps.bind (.ofExcept (P := Sql.Join.Unmarked) fun j hj => ?_) fun j hj => ?_
  · refine Sql.Join.unmarked_of_read ?_ hj
    have word : Unmarked (Value.text kind.name).shown := by cases kind <;> decide
    intro e he
    split at he
    · obtain rfl | rfl := by simpa using he
      · exact word
      · exact ht
    · obtain rfl | rfl | rfl | rfl | rfl := by simpa using he
      · exact word
      · exact ht
      · exact hf
      · exact ho
      · exact hs
  · apply keeps_modifySelect
    intro s hs
    have joins : ∀ k ∈ s.joins ++ [j], k.Unmarked := by
      intro k hk
      obtain hk | hk := List.mem_append.mp hk
      · exact hs.matched.joins k hk
      · obtain rfl := List.mem_singleton.mp hk
        exact hj
    exact { hs with matched := { hs.matched with joins := joins } }

theorem keeps_select {values : List Value} (allowed : replacing = true)
    (names : marks (Value.flatten values) = 0) :
    Keeps (Query.Kept replacing) (select values) fun _ => True := by
  unfold select
  apply keeps_modifySelect
  intro s hs
  have none : marks (if (Value.flatten values).isEmpty then [.text "*"]
      else Value.flatten values) = 0 := by
    split
    · decide
    · exact names
  exact { hs with
    matched := { hs.matched with }
    columns := by rw [none]; exact Nat.zero_le _
    claimed := by rw [allowed]; intro h; cases h }

theorem keeps_addSelect {values : List Value} (names : marks (Value.flatten values) = 0) :
    Keeps (Query.Kept replacing) (addSelect values) fun _ => True := by
  unfold addSelect
  apply keeps_modifySelect
  intro s hs
  have kept := hs.addColumns _ (names.trans List.length_nil.symm) s.pivot hs.pivot
  simpa only [List.append_nil] using kept

/-- An expression comes with its values. -/
theorem keeps_selectRaw {text bindings : Value}
    (own : ∀ items, Answers (bindingsOf bindings) items →
      placeholders (text.asText?.getD "") = items.length) :
    Keeps (Query.Kept replacing) (selectRaw text bindings) fun _ => True := by
  -- In between the columns are ahead of the values, so both changes are followed at once.
  intro q hq a after run
  obtain ⟨_, q1, h1, rest⟩ := ok_of_bind run
  obtain ⟨_, q2, h2, rest⟩ := ok_of_bind rest
  obtain ⟨items, q3, h3, last⟩ := ok_of_bind rest
  have still : q = q1 := ((Keeps.ofExcept (P := fun _ => True) fun _ _ => trivial) q rfl _ _ h1).1
  have same : q2 = q3 := (steady_bindingsOf.keeps q2 rfl _ _ h3).1
  cases h2
  cases last
  subst still same
  have kept := hq.1.addColumns [text] (by
    rw [Sql.marks_singleton]
    exact own items ⟨_, _, h3⟩) q.select.pivot hq.1.pivot
  exact ⟨⟨kept, hq.2⟩, trivial⟩

theorem keeps_groupBy {values : List Value} (names : marks (Value.flatten values) = 0) :
    Keeps (Query.Kept replacing) (groupBy values) fun _ => True := by
  unfold groupBy
  apply keeps_modifySelect
  intro s hs
  have grouping : marks (s.grouping ++ Value.flatten values) = 0 := by
    rw [Sql.marks_append, hs.matched.grouping, names]
  exact { hs with matched := { hs.matched with grouping := grouping } }

theorem keeps_order {o : Sql.Order} (own : o.Unmarked) :
    Keeps (Query.Kept replacing) (modifySelect fun s => { s with orders := s.orders ++ [o] })
      fun _ => True := by
  apply keeps_modifySelect
  intro s hs
  have orders : ∀ p ∈ s.orders ++ [o], p.Unmarked := by
    intro p hp
    obtain hp | hp := List.mem_append.mp hp
    · exact hs.matched.orders p hp
    · obtain rfl := List.mem_singleton.mp hp
      exact own
  exact { hs with matched := { hs.matched with orders := orders } }

theorem keeps_orderBy {column direction : Value} (own : Unmarked column.shown) :
    Keeps (Query.Kept replacing) (orderBy column direction) fun _ => True := by
  unfold orderBy
  split
  · dsimp only
    split
    · exact .failed
    · exact steady_checkNames.keeps.seq (keeps_order own)
  · exact .throw

theorem keeps_reorder {column direction : Value} (own : Unmarked column.shown) :
    Keeps (Query.Kept replacing) (reorder column direction) fun _ => True := by
  unfold reorder
  refine Keeps.seq (keeps_modifySelect fun s hs => ?_) ?_
  · exact { hs with matched := { hs.matched with orders := by simp } }
  · split
    · exact keeps_orderBy own
    · exact .pure trivial

theorem keeps_limit {count : Value} : Keeps (Query.Kept replacing) (limit count) fun _ => True :=
  keeps_modifySelect fun _ hs => { hs with matched := { hs.matched with } }

theorem keeps_offset {count : Value} : Keeps (Query.Kept replacing) (offset count) fun _ => True :=
  keeps_modifySelect fun _ hs => { hs with matched := { hs.matched with } }

theorem keeps_forPage {page size : Value} :
    Keeps (Query.Kept replacing) (forPage page size) fun _ => True := by
  unfold forPage
  exact (Keeps.ofExcept fun _ _ => trivial).bind fun _ _ => keeps_offset.seq keeps_limit

theorem keeps_setTrashed {mode : Sql.Trashed} {method : String} :
    Keeps (Query.Kept replacing) (setTrashed mode method) fun _ => True := by
  have set : Keeps (Query.Kept replacing) (modifySelect fun s => { s with trashed := mode })
      fun _ => True :=
    keeps_modifySelect fun _ hs => { hs with matched := { hs.matched with } }
  unfold setTrashed
  refine Keeps.get.bind fun q _ => ?_
  dsimp only
  split
  · exact .failed
  · exact set

theorem keeps_setPivotSource {table label : Value} (one : Unmarked table.shown)
    (two : Unmarked label.shown) :
    Keeps (Query.Kept replacing) (setPivotSource table label) fun _ => True := by
  unfold setPivotSource
  refine Keeps.get.bind fun q _ => ?_
  split
  · refine steady_checkNames.keeps.seq (keeps_modifySelect fun s hs => ?_)
    exact { hs with matched := { hs.matched with }, pivot := by simpa using ⟨one, two⟩ }
  · exact .pure trivial

theorem keeps_setPivotAlias {label : Value} (own : Unmarked label.shown) :
    Keeps (Query.Kept replacing) (setPivotAlias label) fun _ => True := by
  refine keeps_modifySelect fun s hs => ?_
  have pivot : ∀ p ∈ s.pivot.map fun p => { p with label := label },
      Unmarked p.table ∧ Unmarked p.label.shown := by
    intro p hp
    obtain ⟨old, hold, rfl⟩ := Option.map_eq_some_iff.mp hp
    exact ⟨(hs.pivot old hold).1, own⟩
  exact { hs with matched := { hs.matched with }, pivot := pivot }

theorem keeps_withPivot {columns : List Value} (names : ∀ v ∈ columns, Unmarked v.shown) :
    Keeps (Query.Kept replacing) (withPivot columns) fun _ => True := by
  unfold withPivot
  refine .forM fun column hc => Keeps.get.bind fun q hq => ?_
  split
  · exact .pure trivial
  · rename_i pivot hp
    split
    · have own := hq.1.pivot pivot hp
      have name : Unmarked column.shown := names column hc
      unfold selectPivot
      refine keeps_modifySelect fun s hs => ?_
      have text : marks
          [.text s!"{pivot.table}.{column.shown} AS {pivot.label.shown}__{column.shown}"] =
          ([] : List Value).length := by
        simp_all [marks, Value.asText?, Unmarked, placeholders]
      have kept := hs.addColumns _ text (some { pivot with columns := pivot.columns ++ [column] })
        (by simpa using own)
      simpa only [List.append_nil] using kept
    · exact .pure trivial

end Build

end Relata
