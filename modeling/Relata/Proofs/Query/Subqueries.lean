import Relata.Proofs.Query.Kept

/-!
Steps that make calls below them: groups, drafts, and the subqueries on related rows. A subquery is
built on a query of its own, of which only the conditions are used, so its calls may replace columns
whatever the calls on the outer query may do.
-/

namespace Relata

open Sql (Clause Condition Fragment Junction Select Unmarked marks)
open Sql.Fragment (placeholders)

/-- A query that is answered is kept. -/
def Answer.Kept (replacing : Bool) : Answer → Prop
  | .other q => q.Kept replacing
  | _ => True

theorem Answer.Kept.orSelf {replacing : Bool} {a : Answer} (h : a.Kept replacing) :
    a.orSelf.Kept replacing := by
  unfold Answer.orSelf
  split
  · trivial
  · exact h

namespace Lookup

variable {l : Lookup}

theorem model?_of_asModel {v : Value} {m : Model} (h : l.asModel v = .ok m) :
    ∃ id, l.catalog.model? id = some m := by
  unfold asModel at h
  split at h
  · rename_i id
    split at h
    · rename_i found hm
      obtain rfl := Except.ok.inj h
      exact ⟨id, hm⟩
    · cases h
  · cases h

/-- A reference leads to a model of the catalog. -/
theorem model?_of_target {reference : Value} {m : Model} (h : l.target reference = .ok m) :
    ∃ id, l.catalog.model? id = some m := by
  obtain ⟨found, -, h⟩ := ok_of_bind h
  split at h
  · cases h
  · exact model?_of_asModel h

end Lookup

namespace Query

variable {replacing : Bool}

theorem Kept.blank {source : Sql.Source} {table : Value} (own : Unmarked source.table)
    (other : table.truthy = true → Unmarked table.shown) :
    (Query.blank source table).Kept replacing :=
  ⟨.all own other, by simp [Query.blank]⟩

/-- A new query on a model is kept. -/
theorem Kept.query {m : Model} (own : Unmarked m.table) {q : Query} (h : m.query = .ok q) :
    q.Kept replacing :=
  Blind.query (fun _ _ kept => kept) (.blank own fun h => by cases h) h

end Query

namespace Build

variable {env : Env} {inner : Caller} {P : Bool → Call → Prop} {replacing : Bool}
variable {I : Query → Prop}

/-- Calls with `P` keep what they are to keep, whether they are made on the same query or in a
subquery, and so do those that relations bring. -/
structure Grounds (env : Env) (inner : Caller) (P : Bool → Call → Prop) (replacing : Bool) :
    Prop where
  calls : ∀ c, P replacing c →
    Keeps (Query.Kept replacing) (inner c) (Answer.Kept replacing)
  below : ∀ c, P true c → Keeps (Query.Kept true) (inner c) (Answer.Kept true)
  names : env.Matched
  constraints : ∀ id m, env.catalog.model? id = some m →
    ∀ name d, env.require m name = .ok d → ∀ c ∈ d.constraints, P true c

/-- What holds for the calls of a subquery. -/
theorem Grounds.within (h : Grounds env inner P replacing) : Grounds env inner P true :=
  { h with calls := h.below }

/-- The opposite of an operator without placeholder has none. -/
theorem unmarked_opposite {word o : String} (own : Unmarked o) :
    Unmarked ((negatedOperator? word).getD o) := by
  cases h : negatedOperator? word with
  | none => exact own
  | some opposite =>
    obtain ⟨before, after, heq, -⟩ := List.lookup_eq_some_iff.mp h
    have table : ∀ e ∈ [("=", "!="), ("!=", "="), ("<>", "="), ("<", ">="), ("<=", ">"),
        (">", "<="), (">=", "<"), ("LIKE", "NOT LIKE"), ("NOT LIKE", "LIKE")],
        Unmarked e.2 := by
      decide
    rw [heq] at table
    exact table (word, opposite) (by simp)

theorem keeps_model :
    Keeps I (model env) fun m => ∃ id, env.catalog.model? id = some m := by
  refine (Keeps.get (I := I)).bind fun q _ => ?_
  split
  · rename_i m hm
    exact .pure ⟨_, hm⟩
  · exact .throw

/-- The query on the model that a relation leads to. -/
theorem keeps_base (replacing : Bool) {m : Model} (own : Unmarked m.table) :
    Keeps I (ofExcept m.query) (Query.Kept replacing) :=
  .ofExcept fun _ h => .query own h

theorem unmarked_link {a b c d : String} (ha : Unmarked a) (hb : Unmarked b) (hc : Unmarked c)
    (hd : Unmarked d) : Unmarked s!"{a}.{b} = {c}.{d}" := by
  simp_all [Unmarked, placeholders]

theorem unmarked_joined {a b c d : String} (ha : Unmarked a) (hb : Unmarked b) (hc : Unmarked c)
    (hd : Unmarked d) : Unmarked (s!"{a} JOIN {b} ON {a}.{c} = " ++ s!"{b}.{d}") := by
  simp_all [Unmarked, placeholders]

theorem unmarked_rows {a b c : String} (ha : Unmarked a) (hb : Unmarked b) (hc : Unmarked c) :
    Unmarked s!"SELECT 1 FROM {a} WHERE {a}.id = {b}.{c}" := by
  simp_all [Unmarked, placeholders]

theorem balanced_separated {word : String} (unmarked : Unmarked word) :
    ∀ {fs : List Fragment}, (∀ f ∈ fs, f.Balanced) → (separated word fs).Balanced
  | [], _ => Fragment.balanced_empty
  | [f], h => h f (by simp)
  | f :: g :: rest, h => by
    have first : (f ++ .plain word).Balanced := (h f (by simp)).append unmarked
    exact first.append (balanced_separated unmarked fun k hk => h k (by simp [hk]))

theorem balanced_furtherConditions {q : Query} {table : String} (h : q.Kept replacing)
    (own : Unmarked table) : (furtherConditions q table).Balanced := by
  have inside := Sql.balanced_compile (Select.matched_whereList own h.1.matched.conditions)
  unfold furtherConditions
  dsimp only
  split
  · exact Fragment.balanced_empty
  · have opening : (Fragment.plain " AND (").Balanced :=
    Fragment.balanced_plain (by decide)
    have closing : (Fragment.plain ")").Balanced :=
    Fragment.balanced_plain (by decide)
    exact (opening.append inside).append closing

/-- Nothing is called where there is no refinement. -/
theorem refines_null {Q : Call → Prop} : Value.Refines Q .null := by
  intro calls answers h
  cases h

theorem unmarked_null : Unmarked (env.shown .null) := by
  change Unmarked "None"
  decide

/-- A column compared with a value by equality. -/
theorem keeps_equality {junction : Junction} {column : String} {v : Value}
    (own : Unmarked column) :
    Keeps I (comparison junction (.text column) (some v) none) Clause.Matched :=
  keeps_comparison own fun h => by cases h

theorem items_of_bindingsOf {values items : List Value}
    (h : Answers (bindingsOf (.list values)) items) : items = values := by
  obtain ⟨q, after, run⟩ := h
  cases values <;> cases run <;> rfl

/-- Points become underscores, and placeholders stay what they are. -/
theorem placeholders_underscored (s : String) :
    placeholders (String.ofList (s.toList.map fun c => if c = '.' then '_' else c)) =
      placeholders s := by
  simp only [placeholders, String.toList_ofList]
  induction s.toList with
  | nil => rfl
  | cons c rest ih =>
    simp only [List.map_cons, List.count_cons, ih]
    by_cases h : c = '.' <;> simp [h]

/-- A step on another kept query answers a kept one, if any. -/
theorem keeps_answerOn {q : Query} {step : Build Answer} (start : q.Kept replacing)
    (h : Keeps (Query.Kept replacing) step (Answer.Kept replacing)) :
    Keeps I (answerOn q step) (Answer.Kept replacing) := by
  refine (Keeps.on start h).bind fun r hr => ?_
  obtain ⟨answer, after⟩ := r
  cases answer with
  | self => exact .pure hr.2
  | other q => exact .pure hr.1
  | value v => exact .pure trivial

section

variable (grounds : Grounds env inner P replacing)
include grounds

theorem keeps_chain {calls : List Call} (h : ∀ c ∈ calls, P replacing c) :
    Keeps (Query.Kept replacing) (chain inner calls) (Answer.Kept replacing) := by
  refine .foldlM trivial fun answer ha c hc => ?_
  have own := grounds.calls c (h c hc)
  cases answer with
  | self => exact own
  | other q => exact keeps_answerOn ha own
  | value v => exact .throw

theorem keeps_refine {callback : Value} (h : callback.Refines (P replacing)) :
    Keeps (Query.Kept replacing) (refine inner callback) (Answer.Kept replacing) := by
  unfold Build.refine
  split
  · rename_i calls answers
    refine (keeps_chain grounds (h calls answers rfl)).bind fun answer ha => ?_
    split
    · exact .pure ha
    · exact .pure trivial
  · exact .throw

theorem keeps_refineIfGiven {callback : Value} (h : callback.Refines (P replacing)) :
    Keeps (Query.Kept replacing) (refineIfGiven inner callback) fun _ => True := by
  unfold refineIfGiven
  split
  · exact .pure trivial
  · exact (keeps_refine grounds h).discard

theorem keeps_group {target : Target} {junction : Junction} {negated : Bool} {callback : Value}
    (h : callback.Refines (P true)) :
    Keeps (Query.Kept replacing) (group inner target junction negated callback)
      Clause.Matched := by
  unfold group
  refine Keeps.get.bind fun q hq => ?_
  have start : (Query.blank q.select.source q.select.table).Kept true := by
    refine .blank hq.1.source fun ht => ?_
    have own := hq.1.matched.table
    rwa [Select.from_, if_pos ht] at own
  dsimp only
  split
  · exact .failed
  · refine (Keeps.on start (keeps_refine grounds.within h)).bind fun r hr => .pure fun t ht => ?_
    have subqueries := hr.2.1.matched
    cases target with
    | conditions => exact subqueries.conditions t ht
    | having => exact subqueries.having t ht

theorem keeps_compareOrGroup {target : Target} {junction : Junction} {column : Value}
    {operator value : Option Value} (h : Compares (P true) column operator value) :
    Keeps (Query.Kept replacing) (compareOrGroup inner target junction column operator value)
      fun _ => True := by
  unfold compareOrGroup
  split
  · exact (keeps_group grounds h.group).bind fun c hc => keeps_addTo target hc
  · rename_i callable
    have own := h.column (by simpa using callable)
    exact (keeps_comparison own h.operator).bind fun c hc => keeps_addTo target hc

theorem keeps_whereNot {column : Value} {operator value : Option Value}
    (h : Compares (P true) column operator value) :
    Keeps (Query.Kept replacing) (whereNot inner column operator value) fun _ => True := by
  have word : ∀ {v : Option Value} {o : String}, Unmarked o →
      v.isSome → ∀ w ∈ some (Value.text o), Unmarked w.shown := by
    intro v o ho _ w hw
    obtain rfl := Option.some.inj hw
    exact ho
  unfold whereNot
  split
  · exact (keeps_group grounds h.group).bind fun c hc => keeps_addTo .conditions hc
  · rename_i callable
    have own := h.column (by simpa using callable)
    cases value with
    | none =>
      cases operator with
      | some v =>
        exact (keeps_comparison own (word (by decide))).bind fun c hc => keeps_addTo .conditions hc
      | none =>
        exact (keeps_comparison own (word (by decide))).bind fun c hc => keeps_addTo .conditions hc
    | some v =>
      dsimp only
      split
      · rename_i o
        have given : Unmarked o := h.operator rfl (.text o) rfl
        exact (keeps_comparison own (word (unmarked_opposite given))).bind
          fun c hc => keeps_addTo .conditions hc
      · exact .throw

/-- A relation that is there has unmarked names, and the calls that it brings have `P`. -/
theorem keeps_require {relation : Value} :
    Keeps I (require env relation) fun d => d.Unmarked ∧ ∀ c ∈ d.constraints, P true c := by
  unfold require
  refine keeps_model.bind fun m hm => .ofExcept fun d hd => ?_
  obtain ⟨id, hm⟩ := hm
  exact ⟨grounds.names.relations id m hm relation d hd,
    grounds.constraints id m hm relation d hd⟩

theorem unmarked_target {reference : Value} {m : Model} (h : env.target reference = .ok m) :
    Unmarked m.table := by
  obtain ⟨id, hm⟩ := Lookup.model?_of_target h
  exact grounds.names.tables id m hm

theorem keeps_link {d : Descriptor} {related : Model} {parent : String} (names : d.Unmarked)
    (own : Unmarked related.table) (outer : Unmarked parent) :
    Keeps I (link env d related parent) fun l =>
      Unmarked l.source ∧ ∀ f ∈ l.conditions, f.Balanced := by
  have one : ∀ {source : String} {f : Fragment}, Unmarked source → f.Balanced →
      Unmarked (Link.mk source [f]).source ∧ ∀ g ∈ (Link.mk source [f]).conditions, g.Balanced := by
    intro source f hs hf
    exact ⟨hs, fun g hg => by rwa [List.mem_singleton.mp hg]⟩
  unfold link
  dsimp only
  split
  case h_1 | h_2 => exact .pure (one own (unmarked_link own names.foreignKey outer names.localKey))
  case h_3 => exact .pure (one own (unmarked_link own names.ownerKey outer names.foreignKey))
  case h_4 | h_5 | h_6 =>
    refine keeps_model.bind fun m _ => (Keeps.ofExcept fun _ _ => trivial).bind fun tags _ => ?_
    refine .pure ⟨own, fun f hf => ?_⟩
    obtain rfl | rfl := by simpa using hf
    · exact unmarked_link own names.idColumn outer names.localKey
    · have marks := Sql.placeholders_items tags
      have column := names.typeColumn
      simp_all [Fragment.Balanced, Unmarked, placeholders]
  case h_7 =>
    exact .pure (one (unmarked_joined own names.table names.relatedKey names.relatedPivotKey)
      (unmarked_link names.table names.foreignPivotKey outer names.parentKey))
  case h_8 | h_9 =>
    refine Keeps.bind (.ofExcept fun m hm => unmarked_target grounds hm) fun m hm => ?_
    exact .pure (one (unmarked_joined own hm names.secondKey names.secondLocalKey)
      (unmarked_link hm names.firstKey outer names.localKey))
  case h_10 => exact .throw

theorem keeps_relatedRows {relation callback : Value} (h : callback.Refines (P true)) :
    Keeps (Query.Kept replacing) (relatedRows env inner relation callback) Fragment.Balanced := by
  unfold relatedRows
  refine (keeps_require grounds).bind fun d hd => ?_
  dsimp only
  split
  · exact .failed
  · refine Keeps.get.bind fun q hq => ?_
    refine Keeps.bind (.ofExcept fun m hm => unmarked_target grounds hm) fun related own => ?_
    refine (keeps_base true own).bind fun base start => ?_
    have below : Keeps (Query.Kept true)
        (do discard (chain inner d.constraints); refineIfGiven inner callback) fun _ => True :=
      (keeps_chain grounds.within hd.2).discard.seq (keeps_refineIfGiven grounds.within h)
    refine (Keeps.on start below).bind fun r hr => ?_
    refine (keeps_link grounds hd.1 own hq.1.matched.table).bind fun l hl => .pure ?_
    have heading : (Fragment.plain s!" FROM {l.source} WHERE ").Balanced := by
      have source := hl.1
      simp_all [Fragment.Balanced, Unmarked, placeholders]
    exact (heading.append (balanced_separated (by decide) hl.2)).append
      (balanced_furtherConditions hr.2 own)

theorem keeps_existsQuery {relation callback : Value} (h : callback.Refines (P true)) :
    Keeps (Query.Kept replacing) (existsQuery env inner relation callback) Fragment.Balanced := by
  have heading : (Fragment.plain "SELECT 1").Balanced :=
    Fragment.balanced_plain (by decide)
  exact (keeps_relatedRows grounds h).bind fun f hf => .pure (heading.append hf)

theorem keeps_countQuery {relation callback : Value} (h : callback.Refines (P true)) :
    Keeps (Query.Kept replacing) (countQuery env inner relation callback) Fragment.Balanced := by
  have heading : (Fragment.plain "SELECT COUNT(*)").Balanced :=
    Fragment.balanced_plain (by decide)
  exact (keeps_relatedRows grounds h).bind fun f hf => .pure (heading.append hf)

theorem keeps_whereHas {junction : Junction} {relation callback operator count : Value}
    (h : callback.Refines (P true)) (word : Unmarked (env.shown operator)) :
    Keeps (Query.Kept replacing) (whereHas env inner junction relation callback operator count)
      fun _ => True := by
  have closing : (Fragment.plain ")").Balanced :=
    Fragment.balanced_plain (by decide)
  unfold whereHas
  split
  · have opening : (Fragment.plain "EXISTS (").Balanced :=
    Fragment.balanced_plain (by decide)
    exact (keeps_existsQuery grounds h).bind fun f hf =>
      keeps_addFragment ((opening.append hf).append closing)
  · have opening : (Fragment.plain "(").Balanced :=
    Fragment.balanced_plain (by decide)
    have comparison : (Fragment.mk s!") {env.shown operator} ?" [count]).Balanced := by
      simp_all [Fragment.Balanced, Unmarked, placeholders]
    exact (keeps_countQuery grounds h).bind fun f hf =>
      keeps_addFragment ((opening.append hf).append comparison)

theorem keeps_has {junction : Junction} {relation operator count : Value}
    (word : Unmarked (env.shown operator)) :
    Keeps (Query.Kept replacing) (has env inner junction relation operator count)
      fun _ => True := by
  unfold has
  split
  · exact keeps_whereHas grounds refines_null unmarked_null
  · exact keeps_whereHas grounds refines_null word

theorem keeps_doesntHave {junction : Junction} {relation callback : Value}
    (h : callback.Refines (P true)) :
    Keeps (Query.Kept replacing) (doesntHave env inner junction relation callback)
      fun _ => True := by
  have opening : (Fragment.plain "NOT EXISTS (").Balanced :=
    Fragment.balanced_plain (by decide)
  have closing : (Fragment.plain ")").Balanced :=
    Fragment.balanced_plain (by decide)
  exact (keeps_existsQuery grounds h).bind fun f hf =>
    keeps_addFragment ((opening.append hf).append closing)

theorem keeps_withWhereHas {relation callback : Value} (h : callback.Refines (P true)) :
    Keeps (Query.Kept replacing) (withWhereHas env inner relation callback) fun _ => True :=
  (keeps_whereHas grounds h unmarked_null).seq keeps_with_

/-- The number of related rows is a column with its values. -/
theorem keeps_withCount {relations : Value}
    (own : ∀ entries, Answers (counted relations) entries →
      ∀ e ∈ entries, Unmarked e.1.shown ∧ e.2.Refines (P true)) :
    Keeps (Query.Kept replacing) (withCount env inner relations) fun _ => True := by
  unfold withCount
  refine steady_counted.keeps.answers.bind fun entries he => .forM fun e hm => ?_
  obtain ⟨relation, callback⟩ := e
  obtain ⟨name, refines⟩ := own entries he.2 _ hm
  refine (keeps_countQuery grounds refines).bind fun count hcount => keeps_selectRaw ?_
  intro items hitems
  obtain rfl := items_of_bindingsOf hitems
  have replaced := placeholders_underscored relation.shown
  have balanced : placeholders count.text = count.values.length := hcount
  simp_all [Value.asText?, Unmarked, placeholders]

theorem keeps_inferOwner {owner : Value} : Keeps I (inferOwner env owner) fun _ => True := by
  unfold inferOwner
  refine keeps_model.bind fun self _ => ?_
  dsimp only
  refine Keeps.bind (.filterM fun name _ => ?_) fun candidates _ => ?_
  · refine (keeps_require grounds).bind fun d _ => ?_
    split
    · exact .pure trivial
    · exact (Keeps.ofExcept fun _ _ => trivial).bind fun _ _ => .pure trivial
  · split
    · exact .pure trivial
    · exact .throw

omit grounds in
theorem keeps_whereNothing : Keeps (Query.Kept replacing) whereNothing fun _ => True := by
  refine keeps_addRaw fun s hs items hitems => ?_
  obtain rfl := Value.text.inj hs
  obtain ⟨q, after, run⟩ := hitems
  cases run
  decide

theorem keeps_whereOwned {several : Bool} {items : List Value} {relation : Value} :
    Keeps (Query.Kept replacing) (whereOwned env several items relation) fun _ => True := by
  refine (keeps_require grounds).bind fun d hd => ?_
  dsimp only
  split
  · exact .failed
  · refine (Steady.mapM fun _ => steady_attributeOf).keeps.bind fun keys _ => ?_
    split
    · exact keeps_whereNothing
    · split
      · exact keeps_whereIn hd.1.foreignKey
      · exact (keeps_equality hd.1.foreignKey).bind fun c hc => keeps_addTo .conditions hc

theorem keeps_whereBelongsTo {related relation : Value} :
    Keeps (Query.Kept replacing) (whereBelongsTo env related relation) fun _ => True := by
  unfold whereBelongsTo
  dsimp only
  split
  · exact keeps_whereNothing
  · split
    · refine Keeps.bind (P := fun _ => True) ?_ fun name _ => keeps_whereOwned grounds
      exact (keeps_inferOwner grounds).map fun _ _ => trivial
    · exact keeps_whereOwned grounds

theorem keeps_requireMorphTo {relation : Value} :
    Keeps I (requireMorphTo env relation) Descriptor.Unmarked := by
  unfold requireMorphTo
  refine (keeps_require grounds).bind fun d hd => ?_
  dsimp only
  split
  · exact .failed
  · exact .pure hd.1

theorem keeps_targetWithTag {d : Descriptor} {parent : String} {callback found tag : Value}
    (names : d.Unmarked) (outer : Unmarked parent) (h : callback.Refines (P true)) :
    Keeps I (targetWithTag env inner d parent callback found tag) Fragment.Balanced := by
  unfold targetWithTag
  dsimp only
  split
  · exact .failed
  · refine Keeps.bind (P := fun m => Unmarked m.table) (.ofExcept fun m hm => ?_)
      fun related own => ?_
    · obtain ⟨id, hm⟩ := Lookup.model?_of_asModel hm
      exact grounds.names.tables id m hm
    · refine (keeps_base true own).bind fun base start => ?_
      refine (Keeps.on start (keeps_refineIfGiven grounds.within h)).bind fun r hr => .pure ?_
      have typeColumn := names.typeColumn
      have heading : (Fragment.mk s!"({parent}.{Descriptor.written d.typeColumn} = ? AND EXISTS ("
          [tag]).Balanced := by
        simp_all [Fragment.Balanced, Unmarked, placeholders]
      have inside := (Fragment.balanced_plain (unmarked_rows own outer names.idColumn)).append
        (balanced_furtherConditions hr.2 own)
      exact (heading.append inside).append (Fragment.balanced_plain (by decide))

theorem keeps_targetOfType {d : Descriptor} {parent : String} {callback type : Value}
    (names : d.Unmarked) (outer : Unmarked parent) (h : callback.Refines (P true)) :
    Keeps I (targetOfType env inner d parent callback type) Fragment.Balanced := by
  unfold targetOfType
  dsimp only
  split
  · exact Steady.ofExcept.keeps.bind fun _ _ => keeps_targetWithTag grounds names outer h
  · refine Steady.ofExcept.keeps.bind fun tag _ => ?_
    exact Steady.ofExcept.keeps.bind fun _ _ => keeps_targetWithTag grounds names outer h

theorem keeps_whereHasMorph {junction : Junction} {relation types callback : Value}
    (h : callback.Refines (P true)) :
    Keeps (Query.Kept replacing) (whereHasMorph env inner junction relation types callback)
      fun _ => True := by
  unfold whereHasMorph
  refine (keeps_requireMorphTo grounds).bind fun d hd => Keeps.get.bind fun q hq => ?_
  refine (Keeps.mapM fun type _ => keeps_targetOfType grounds hd hq.1.matched.table h).bind
    fun parts hparts => keeps_addFragment ?_
  split
  · exact Fragment.balanced_plain (by decide)
  · exact balanced_separated (by decide) hparts

theorem keeps_whereMorphedTo {relation target : Value} :
    Keeps (Query.Kept replacing) (whereMorphedTo env relation target) fun _ => True := by
  unfold whereMorphedTo
  refine (keeps_requireMorphTo grounds).bind fun d hd => ?_
  refine (keeps_equality hd.typeColumn).bind fun c hc => ?_
  refine (keeps_addTo .conditions hc).seq (steady_attributeOf.keeps.bind fun id _ => ?_)
  exact (keeps_equality hd.idColumn).bind fun c hc => keeps_addTo .conditions hc

end

end Build

end Relata
