import Relata.Proofs.Query.Subqueries

/-!
Every method keeps a query kept, if what it is given is matched; and so does every call, by
induction on how deep the calls below it nest.
-/

namespace Relata.Build

open Sql (Clause Condition Fragment Junction Select Unmarked marks)
open Sql.Fragment (placeholders)

variable {env : Env} {inner : Caller} {P : Bool → Call → Prop} {replacing : Bool}
variable {I : Query → Prop}

theorem keeps_ofMany {column aggregate : Value} (own : Unmarked column.shown) :
    Keeps (Query.Kept replacing) (ofMany column aggregate) fun _ => True := by
  rw [ofMany_eq]
  refine (Keeps.ofExcept fun _ _ => trivial).bind fun extremum _ => ?_
  refine Keeps.get.bind fun q hq => ?_
  refine Keeps.bind (P := Fragment.Balanced) (.ofExcept fun f hf => ?_) fun body hbody => ?_
  · have columns : marks [.text s!"{extremum.function}({column.shown}) AS aggregate_value"] =
        ([] : List Value).length := by
      cases extremum <;>
        simp_all [marks, Value.asText?, Unmarked, placeholders, Extremum.function]
    refine Select.balanced_body ?_ hf
    exact ⟨{ hq.1.matched with orders := by simp [Select.extremeOf] }, columns⟩
  · have heading : (Fragment.plain s!"{column.shown} = (").Balanced := by
      simp_all [Fragment.Balanced, Unmarked, placeholders]
    have closing : (Fragment.plain ")").Balanced := Fragment.balanced_plain (by decide)
    have whole := (heading.append hbody).append closing
    exact (keeps_addFragment whole).seq ((keeps_orderBy own).seq keeps_limit)

theorem keeps_checkedStatement {context : String} :
    Keeps I (checkedStatement context) fun _ => True :=
  (Keeps.get (I := I)).bind fun _ _ => .ofExcept fun _ _ => trivial

/-- The functions of a part of a moment hold no placeholder. -/
theorem unmarked_part {name function : String}
    (h : Method.ofName? name = some (.wherePart function)) : Unmarked function := by
  obtain ⟨before, after, heq, -⟩ := List.lookup_eq_some_iff.mp h
  have table : (Method.named.all fun e => match e.2 with
      | .wherePart f => decide (Unmarked f)
      | _ => true) = true := by
    decide
  have own := List.all_eq_true.mp table (name, .wherePart function) (by rw [heq]; simp)
  exact of_decide_eq_true own

theorem keeps_done {step : Build Unit}
    (h : Keeps (Query.Kept replacing) step fun _ => True) :
    Keeps (Query.Kept replacing) (done step) (Answer.Kept replacing) :=
  h.seq (.pure trivial)

section

variable (grounds : Grounds env inner P replacing)
include grounds

theorem keeps_scope {name : Value} {args : List Value}
    (h : ∀ id m, env.catalog.model? id = some m → ∀ s ∈ m.scopes, s.name = name.shown →
      ∀ c ∈ Value.fillCalls args s.calls, P replacing c) :
    Keeps (Query.Kept replacing) (scope env inner name args) (Answer.Kept replacing) := by
  unfold scope
  refine keeps_model.bind fun m hm => ?_
  obtain ⟨id, hm⟩ := hm
  split
  · exact .throw
  · rename_i s hs
    have named := List.find?_some hs
    have own := h id m hm s (List.mem_of_find?_eq_some hs) (by simpa using named)
    refine (keeps_chain grounds own).bind fun answer ha => .pure ?_
    split
    · exact ha.orSelf
    · trivial

variable (stored : ∀ (id : QueryId) (q : Query), env.queries[id]? = some q → q.Kept replacing)
include stored

/-- A draft of kept queries and of calls with `P` comes to a kept query. -/
theorem keeps_draft {base : Value} {calls : List Call} (h : ∀ c ∈ calls, P replacing c) :
    Keeps I (buildDraft env inner base calls) (Answer.Kept replacing) := by
  have start : Keeps I (ofExcept (draftStart env base)) (Query.Kept replacing) := by
    refine .ofExcept fun q hq => ?_
    unfold draftStart at hq
    split at hq
    · split at hq
      · rename_i id _ m hm
        exact .query (grounds.names.tables id m hm) hq
      · cases hq
    · obtain ⟨g, -, hq⟩ := Relata.ok_of_bind hq
      split at hq
      · split at hq
        · rename_i r hr
          obtain rfl := Except.ok.inj hq
          exact stored _ _ hr
        · cases hq
      · cases hq
    · cases hq
  exact start.bind fun q hq => keeps_answerOn hq (keeps_chain grounds h)

theorem keeps_queryOf {v : Value}
    (h : ∀ base calls, v = .draft base calls → ∀ c ∈ calls, P replacing c) :
    Keeps I (queryOf env inner v) (Query.Kept replacing) := by
  unfold queryOf
  split
  · split
    · rename_i q hq
      exact .pure (stored _ q hq)
    · exact .throw
  · rename_i base calls
    refine (keeps_draft grounds stored (h base calls rfl)).bind fun answer ha => ?_
    split
    · exact .pure ha
    · exact .throw
  · exact .throw
  · exact .throw

theorem keeps_union {all : Bool} {other : Value}
    (h : ∀ base calls, other = .draft base calls → ∀ c ∈ calls, P replacing c) :
    Keeps (Query.Kept replacing) (union env inner all other) fun _ => True := by
  unfold union
  refine (keeps_queryOf grounds stored h).bind fun q hq => .change fun self hself => ?_
  refine ⟨hself.1, fun b hb => ?_⟩
  obtain hb | hb := List.mem_append.mp hb
  · exact hself.2 b hb
  · obtain rfl := List.mem_singleton.mp hb
    exact hq.1

/-- A method keeps a query kept, if what it is given is matched. -/
theorem keeps_perform {m : Method}
    (part : ∀ function, m = .wherePart function → Unmarked function)
    {args : List (Option Value)} (h : m.Matched env inner P replacing args) :
    Keeps (Query.Kept replacing) (perform env inner m args) (Answer.Kept replacing) := by
  unfold perform
  cases m with
  | table =>
    dsimp only
    split
    · rename_i name
      refine keeps_done (keeps_modifySelect fun s hs => ?_)
      have own : Unmarked (env.listed name).shown := h
      exact hs.onTable own
    · exact .throw
  | select => exact keeps_done (keeps_select h.1 h.2)
  | addSelect => exact keeps_done (keeps_addSelect h)
  | selectRaw =>
    dsimp only
    split
    · rename_i text bindings
      refine keeps_done (steady_opened.keeps.answers.bind fun opened ho => ?_)
      exact steady_givenBindings.keeps.answers.bind fun given hg =>
        keeps_selectRaw (h opened ho.2 given hg.2)
    · exact .throw
  | distinct =>
    dsimp only
    split
    · exact keeps_done (keeps_modifySelect fun s hs => { hs with matched := { hs.matched with } })
    · exact .throw
  | join kind =>
    dsimp only
    split
    · rename_i table
      have own : Unmarked table.shown := h table (by simp)
      have null : Unmarked Value.null.shown := by decide
      exact keeps_done (keeps_join own null null null)
    · exact keeps_done (keeps_join (h _ (by simp)) (h _ (by simp))
        (h _ (by simp)) (h _ (by simp)))
    · exact .throw
  | where_ j =>
    dsimp only
    split
    · exact keeps_done (keeps_compareOrGroup grounds h)
    · exact .throw
  | whereNot =>
    dsimp only
    split
    · exact keeps_done (keeps_whereNot grounds h)
    · exact .throw
  | whereIn j negated =>
    dsimp only
    split
    · exact keeps_done (steady_opened.keeps.bind fun _ _ => keeps_whereIn h)
    · exact .throw
  | whereNull j negated =>
    dsimp only
    split
    · exact keeps_done (keeps_whereNull h)
    · exact .throw
  | whereBetween j negated =>
    dsimp only
    split
    · exact keeps_done (steady_opened.keeps.bind fun _ _ => keeps_whereBetween h)
    · exact .throw
  | whereRaw j =>
    dsimp only
    split
    · exact keeps_done (steady_givenBindings.keeps.answers.bind fun given hg =>
        keeps_addRaw fun s hs => h s hs given hg.2)
    · exact .throw
  | whereColumn j =>
    dsimp only
    split
    · rename_i first operator second
      refine keeps_done (keeps_whereColumn h.1 h.2.1 fun v hv => ?_)
      obtain ⟨w, hw, rfl⟩ := Option.map_eq_some_iff.mp hv
      exact h.2.2 w hw
    · exact .throw
  | whereLike negated =>
    dsimp only
    split
    · refine keeps_done (keeps_compareOrGroup grounds ⟨h.group, h.column, fun _ o ho => ?_⟩)
      obtain rfl := Option.some.inj ho
      cases negated <;> decide
    · exact .throw
  | whereEach every =>
    dsimp only
    split
    · exact keeps_done (steady_opened.keeps.answers.bind fun opened ho =>
        keeps_whereEach (h.1 opened ho.2) h.2)
    · exact .throw
  | wherePart function =>
    dsimp only
    split
    · rename_i column operator value
      refine keeps_done (keeps_compareOrGroup grounds ⟨fun _ _ h => (by cases h), fun _ => ?_, ?_⟩)
      · have own : Unmarked (env.shown column) := h.1
        have word := part function rfl
        simp_all [Value.shown, Unmarked, placeholders]
      · intro given o ho
        obtain rfl := Option.some.inj ho
        exact h.2 given
    · exact .throw
  | groupBy => exact keeps_done (keeps_groupBy h)
  | having j =>
    dsimp only
    split
    · exact keeps_done (keeps_compareOrGroup grounds h)
    · exact .throw
  | havingRaw =>
    dsimp only
    split
    · exact keeps_done (steady_givenBindings.keeps.answers.bind fun given hg =>
        keeps_addRaw fun s hs => h s hs given hg.2)
    · exact .throw
  | orderBy =>
    dsimp only
    split
    · exact keeps_done (keeps_orderBy h)
    · exact .throw
  | orderByDescending =>
    dsimp only
    split
    · exact keeps_done (keeps_orderBy h)
    · exact .throw
  | byAge newest =>
    dsimp only
    split
    · exact keeps_done (keeps_orderBy h)
    · exact .throw
  | randomOrder =>
    dsimp only
    split
    · exact keeps_done (keeps_order trivial)
    · exact .throw
  | reorder =>
    dsimp only
    split
    · rename_i column direction
      refine keeps_done (keeps_reorder ?_)
      split
      · exact h
      · decide
    · exact .throw
  | limit =>
    dsimp only
    split
    · exact keeps_done keeps_limit
    · exact .throw
  | offset =>
    dsimp only
    split
    · exact keeps_done keeps_offset
    · exact .throw
  | forPage =>
    dsimp only
    split
    · exact keeps_done keeps_forPage
    · exact .throw
  | union all =>
    dsimp only
    split
    · exact keeps_done (keeps_union grounds stored h)
    · exact .throw
  | trashed mode =>
    dsimp only
    split
    · exact keeps_done keeps_setTrashed
    · exact .throw
  | with_ =>
    dsimp only
    split
    · exact keeps_done (steady_givenPaths.keeps.bind fun _ _ => keeps_with_)
    · exact .throw
  | without => exact keeps_done keeps_without
  | withOnly =>
    dsimp only
    split
    · exact keeps_done (steady_givenPaths.keeps.bind fun _ _ => keeps_modifyLoads.seq keeps_with_)
    · exact .throw
  | withWhereHas =>
    dsimp only
    split
    · exact keeps_done (keeps_withWhereHas grounds h)
    · exact .throw
  | withCount =>
    dsimp only
    split
    · exact keeps_done (steady_opened.keeps.answers.bind fun opened ho =>
        keeps_withCount grounds (h opened ho.2))
    · exact .throw
  | whereHas j =>
    dsimp only
    split
    · exact keeps_done (keeps_whereHas grounds h.1 h.2)
    · exact .throw
  | has j =>
    dsimp only
    split
    · exact keeps_done (keeps_has grounds h)
    · exact .throw
  | doesntHave j =>
    dsimp only
    split
    · exact keeps_done (keeps_doesntHave grounds h)
    · exact .throw
  | whereRelation j =>
    dsimp only
    split
    · exact keeps_done (keeps_whereHas grounds h unmarked_null)
    · exact .throw
  | whereBelongsTo =>
    dsimp only
    split
    · exact keeps_done (keeps_whereBelongsTo grounds)
    · exact .throw
  | whereHasMorph j =>
    dsimp only
    split
    · exact keeps_done (keeps_whereHasMorph grounds h)
    · exact .throw
  | whereMorphedTo =>
    dsimp only
    split
    · exact keeps_done (keeps_whereMorphedTo grounds)
    · exact .throw
  | ofMany =>
    dsimp only
    split
    · exact keeps_done (keeps_ofMany h)
    · exact .throw
  | extremeOfMany extremum =>
    dsimp only
    split
    · exact keeps_done (keeps_ofMany h)
    · exact .throw
  | setPivotSource =>
    dsimp only
    split
    · exact keeps_done (keeps_setPivotSource h.1 h.2)
    · exact .throw
  | pivotAlias =>
    dsimp only
    split
    · exact keeps_done (keeps_setPivotAlias h)
    · exact .throw
  | withPivot => exact keeps_done (keeps_withPivot h)
  | when expected =>
    dsimp only
    split
    · rename_i condition callback default
      refine keeps_done ?_
      split
      · exact (keeps_refine grounds h.1).discard
      · exact keeps_refineIfGiven grounds h.2
    · exact .throw
  | tap =>
    dsimp only
    split
    · exact keeps_done (keeps_refine grounds h).discard
    · exact .throw
  | scope =>
    dsimp only
    split
    · exact keeps_scope grounds h
    · exact .throw
  | clone =>
    dsimp only
    split
    · exact Keeps.get.bind fun q hq => .pure hq
    · exact .throw
  | compile =>
    dsimp only
    split
    · refine Keeps.get.bind fun q _ => ?_
      exact (Keeps.ofExcept fun _ _ => trivial).bind fun _ _ => .pure trivial
    · exact .throw
  | statement =>
    dsimp only
    split
    · exact keeps_checkedStatement.bind fun _ _ => .pure trivial
    · exact .throw
  | toSql =>
    dsimp only
    split
    · exact keeps_checkedStatement.bind fun _ _ => .pure trivial
    · exact .throw
  | getBindings =>
    dsimp only
    split
    · exact keeps_checkedStatement.bind fun _ _ => .pure trivial
    · exact .throw
  | toRawSql =>
    dsimp only
    split
    · exact keeps_checkedStatement.bind fun _ _ => .pure trivial
    · exact .throw
  | eagerLoader => exact .pure trivial
  | running => exact .pure trivial

/-- A call keeps a query kept, if it is matched with what is made below it. -/
theorem keeps_call {c : Call}
    (h : ∀ args named, Answers (settleItems env inner c.args) args →
      Answers (settleNamed env inner c.named) named →
      ∀ m bound, Method.ofName? c.method = some m → m.bind (.mk c.method args named) = .ok bound →
        m.Matched env inner P replacing bound) :
    Keeps (Query.Kept replacing) (call env inner c) (Answer.Kept replacing) := by
  unfold call
  refine (steady_settleItems c.args).keeps.answers.bind fun args hargs => ?_
  refine (steady_settleNamed c.named).keeps.answers.bind fun named hnamed => ?_
  split
  · exact .throw
  · rename_i m hm
    refine Keeps.bind (P := m.Matched env inner P replacing) (.ofExcept fun bound hb => ?_)
      fun bound hb => ?_
    · exact h args named hargs.2 hnamed.2 m bound hm hb
    · exact keeps_perform grounds stored (fun f hf => unmarked_part (hm.trans (by rw [hf]))) hb

end

/-- A matched call keeps a query kept, by induction on how deep calls nest. -/
theorem keeps_callUpTo (matched : env.Matched) (depth : Nat) :
    ∀ (replacing : Bool),
      (∀ (id : QueryId) (q : Query), env.queries[id]? = some q → q.Kept replacing) →
      ∀ c, MatchedUpTo env depth replacing c →
        Keeps (Query.Kept replacing) (callUpTo env depth c) (Answer.Kept replacing) := by
  induction depth with
  | zero => exact fun _ _ _ _ => .throw
  | succ depth ih =>
    intro replacing stored c h
    have grounds : Grounds env (callUpTo env depth) (MatchedUpTo env depth) replacing :=
      { calls := ih replacing stored
        below := ih true fun id q hq => (stored id q hq).loosen
        names := matched
        constraints := fun id m hm name d hd c hc =>
          matched.constraints id m hm name d hd c hc depth }
    exact keeps_call grounds stored h

end Relata.Build
