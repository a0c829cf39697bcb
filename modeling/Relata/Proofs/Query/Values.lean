import Relata.Proofs.Query.Built
import Relata.Proofs.Query.Refined

/-!
Values stay out of the text. Two runs of calls that differ in values alone fail for the same cause
or come to alike queries, whatever is nested in the calls: groups, refinements of relations, and
drafts for a union. So the statements have one text, and their values differ in the changed ones.
-/

namespace Relata

open Sql (AlikeResults Fragment)

variable {R : Value → Value → Prop}

namespace Build

open Place (Callbacks)

variable {env : Env} {inner : Caller}

/-- What is gone through has as many items, one by one alike. -/
theorem paired_opened (refl : ∀ v, R v v) {v w : Value} (h : Place.items.Settled R v w) :
    Paired R (Value.ItemsAlike R) (opened env inner v) (opened env inner w) := by
  cases h with
  | varied h => cases h with
    | same => exact steady_opened.uniform.mono fun a b same => same ▸ .same refl a
    | list h => exact .pure (.list h)
    | tuple h => exact .pure (.tuple h)

theorem comparand_of_settled (refl : ∀ v, R v v) (alone : Bool)
    {operator value operator' value' : Option Value}
    (before : Option.Rel ((Place.at_ (Place.comparand alone) "operator").Settled R)
      operator operator')
    (after : Option.Rel ((Place.at_ (Place.comparand alone) "value").Settled R) value value') :
    Comparand R operator value operator' value' := by
  cases alone with
  | false => cases after with
    | none =>
      obtain rfl : operator = operator' := Place.option_eq before
      exact .same refl operator none
    | some h =>
      obtain rfl : operator = operator' := Place.option_eq before
      exact .last (Place.Settled.value refl h)
  | true => cases after with
    | some h => exact (Place.Settled.not_absent h).elim
    | none => cases before with
      | none => exact .missing
      | some h => exact .alone (Place.Settled.value refl h)

theorem paired_givenBindings (refl : ∀ v, R v v) {v w : Value} (h : Place.items.Settled R v w) :
    Paired R (Value.ItemsAlike R) (givenBindings env inner v) (givenBindings env inner w) := by
  have truth : env.truthy v = env.truthy w := by
    cases h with
    | varied h => cases h with
      | same => rfl
      | list h => exact (Value.ItemsAlike.list h).truthy
      | tuple h => exact (Value.ItemsAlike.tuple h).truthy
  unfold givenBindings
  rw [truth]
  split
  · exact paired_opened refl h
  · exact .pure (.same refl .null)

/-- A refinement by one comparison differs where the comparison does. -/
theorem callbacks_comparing {column column' : Value}
    {operator value operator' value' : Option Value}
    (callbacks : Callbacks R column column') (h : Comparand R operator value operator' value') :
    Callbacks R (comparing column operator value) (comparing column' operator' value') := by
  have recipe : ∀ {named renamed : List (String × Value)},
      Call.Varied R (.mk "where" [column] named) (.mk "where" [column] renamed) →
        Callbacks R (.recipe [.mk "where" [column] named] false)
          (.recipe [.mk "where" [column] renamed] false) :=
    fun h => .callback (.cons h .nil)
  have place : Place.callback ≠ .absent := Place.noConfusion
  unfold comparing
  obtain rfl | ⟨first, second⟩ := callbacks.eq_or
  · split
    · exact .same column
    · cases h with
      | missing => exact recipe (.same _)
      | alone h =>
        exact recipe (.given rfl rfl (.where_ .and true) (.cons (.same place) .nil) rfl
          (.cons (.value h) .nil))
      | @last operator v w h => cases operator with
        | none =>
          exact recipe (.given rfl rfl (.where_ .and false) (.cons (.same place) .nil) rfl
            (.cons (.value h) .nil))
        | some o =>
          exact recipe (.given rfl rfl (.where_ .and false) (.cons (.same place) .nil) rfl
            (.cons (.same Place.noConfusion) (.cons (.value h) .nil)))
  · rw [if_pos first, if_pos second]
    exact callbacks

/-- What is read off the statement is a value of its own, neither null nor a query. -/
theorem uniform_stated (refl : ∀ v, R v v) {context : String} {read : Fragment → Value}
    (given : ∀ f, (read f).isNull = false) (noQuery : ∀ f, (read f).NoQuery) :
    Uniform R (Answer.Alike R) (do return .value (read (← checkedStatement context))) := by
  refine (uniform_checkedStatement refl).bind fun f g _ => .pure ?_
  exact .value ((given f).trans (given g).symm) (noQuery f) (noQuery g)

theorem paired_done {x y : Build Unit} (h : Paired R (fun _ _ => True) x y) :
    Paired R (Answer.Alike R) (done x) (done y) :=
  h.seq (.pure .self)

section

variable (exchange : Exchange R) (tied : Tied R inner)
include exchange tied

theorem paired_queryOf {v w : Value} (h : Place.query.Settled R v w) :
    Paired R (Query.Alike R) (queryOf env inner v) (queryOf env inner w) := by
  have drafts : ∀ {base : Value} {xs ys : List Call}, List.Forall₂ (Call.Varied R) xs ys →
      Paired R (Query.Alike R) (queryOf env inner (.draft base xs))
        (queryOf env inner (.draft base ys)) := by
    intro base xs ys h
    refine (paired_buildDraft tied exchange.refl h).bind fun a b answers => ?_
    cases answers with
    | self => exact .throw
    | other alike => exact .pure alike
    | value => exact .throw
  cases h with
  | noQuery first second =>
    rw [first env inner, second env inner]
    exact .throw
  | varied h => cases h with
    | query h => exact drafts h
    | same => cases v with
      | draft base calls => exact drafts (List.forall₂_same.mpr fun c _ => .same c)
      | query id =>
        unfold queryOf
        dsimp only
        split
        · exact .pure (.same exchange.refl _)
        · exact .throw
      | _ => exact .throw

theorem paired_union {all : Bool} {v w : Value} (h : Place.query.Settled R v w) :
    Paired R (fun _ _ => True) (union env inner all v) (union env inner all w) := by
  refine (paired_queryOf exchange tied h).bind fun p q branch => .change fun self other alike => ?_
  have one : List.Forall₂ (fun b c : Bool × Query => b.1 = c.1 ∧ b.2.select.Alike R c.2.select)
      [(all, p)] [(all, q)] := .cons ⟨rfl, branch.select⟩ .nil
  exact { alike with branches := List.rel_append alike.branches one }

omit exchange in
theorem uniform_scope {name : Value} {args : List Value} :
    Uniform R (Answer.Alike R) (scope env inner name args) := by
  refine uniform_model.follow fun m => ?_
  split
  · exact .throw
  · rename_i s _
    have own : List.Forall₂ (Call.Varied R) (Value.fillCalls args s.calls)
        (Value.fillCalls args s.calls) :=
      List.forall₂_same.mpr fun c _ => .same c
    refine (paired_chain tied own).bind fun a b alike => ?_
    split
    · exact .pure alike.orSelf
    · exact .pure .self

/-- Any one call to a method runs alike on alike queries. -/
theorem uniform_perform {m : Method} {args : List (Option Value)} :
    Uniform R (Answer.Alike R) (perform env inner m args) := by
  have refl := exchange.refl
  unfold perform
  cases m with
  | table =>
    dsimp only
    split
    · exact paired_done (Uniform.update fun _ _ _ _ => rfl)
    · exact .throw
  | select => exact paired_done uniform_select
  | addSelect => exact paired_done uniform_addSelect
  | selectRaw =>
    dsimp only
    split
    · refine paired_done (steady_opened.uniform.follow fun text => ?_)
      exact steady_givenBindings.uniform.follow fun given => paired_selectRaw (.same refl given)
    · exact .throw
  | distinct =>
    dsimp only
    split
    · exact paired_done (Uniform.update fun _ _ _ _ => rfl)
    · exact .throw
  | join kind =>
    dsimp only
    split
    · exact paired_done uniform_join
    · exact paired_done uniform_join
    · exact .throw
  | where_ j =>
    dsimp only
    split
    · exact paired_done (paired_compareOrGroup exchange tied (.same _) (.same refl _ _))
    · exact .throw
  | whereNot =>
    dsimp only
    split
    · exact paired_done (paired_whereNot exchange tied (.same _) (.same refl _ _))
    · exact .throw
  | whereIn j negated =>
    dsimp only
    split
    · exact paired_done (steady_opened.uniform.follow fun v => paired_whereIn (.same refl v))
    · exact .throw
  | whereNull j negated =>
    dsimp only
    split
    · exact paired_done uniform_whereNull
    · exact .throw
  | whereBetween j negated =>
    dsimp only
    split
    · exact paired_done (steady_opened.uniform.follow fun v => paired_whereBetween (.same refl v))
    · exact .throw
  | whereRaw j =>
    dsimp only
    split
    · exact paired_done (steady_givenBindings.uniform.follow fun v => paired_addRaw (.same refl v))
    · exact .throw
  | whereColumn j =>
    dsimp only
    split
    · exact paired_done (uniform_whereColumn refl)
    · exact .throw
  | whereLike negated =>
    dsimp only
    split
    · exact paired_done (paired_compareOrGroup exchange tied (.same _) (.same refl _ _))
    · exact .throw
  | whereEach every =>
    dsimp only
    split
    · exact paired_done (steady_opened.uniform.follow fun _ => paired_whereEach (refl _))
    · exact .throw
  | wherePart function =>
    dsimp only
    split
    · exact paired_done (paired_compareOrGroup exchange tied (.same _) (.same refl _ _))
    · exact .throw
  | groupBy => exact paired_done uniform_groupBy
  | having j =>
    dsimp only
    split
    · exact paired_done (paired_compareOrGroup exchange tied (.same _) (.same refl _ _))
    · exact .throw
  | havingRaw =>
    dsimp only
    split
    · exact paired_done (steady_givenBindings.uniform.follow fun v => paired_addRaw (.same refl v))
    · exact .throw
  | orderBy =>
    dsimp only
    split
    · exact paired_done uniform_orderBy
    · exact .throw
  | orderByDescending =>
    dsimp only
    split
    · exact paired_done uniform_orderBy
    · exact .throw
  | byAge newest =>
    dsimp only
    split
    · exact paired_done uniform_orderBy
    · exact .throw
  | randomOrder =>
    dsimp only
    split
    · exact paired_done (Uniform.update fun _ _ _ _ => rfl)
    · exact .throw
  | reorder =>
    dsimp only
    split
    · exact paired_done uniform_reorder
    · exact .throw
  | limit =>
    dsimp only
    split
    · exact paired_done uniform_limit
    · exact .throw
  | offset =>
    dsimp only
    split
    · exact paired_done uniform_offset
    · exact .throw
  | forPage =>
    dsimp only
    split
    · exact paired_done uniform_forPage
    · exact .throw
  | union all =>
    dsimp only
    split
    · exact paired_done (paired_union exchange tied (.varied (.same Place.noConfusion)))
    · exact .throw
  | trashed mode =>
    dsimp only
    split
    · exact paired_done uniform_setTrashed
    · exact .throw
  | with_ =>
    dsimp only
    split
    · exact paired_done (steady_givenPaths.uniform.follow fun _ => uniform_with_)
    · exact .throw
  | without => exact paired_done uniform_without
  | withOnly =>
    dsimp only
    split
    · exact paired_done (steady_givenPaths.uniform.follow fun _ => uniform_withOnly)
    · exact .throw
  | withWhereHas =>
    dsimp only
    split
    · exact paired_done (uniform_withWhereHas exchange tied)
    · exact .throw
  | withCount =>
    dsimp only
    split
    · exact paired_done (steady_opened.uniform.follow fun _ => uniform_withCount exchange tied)
    · exact .throw
  | whereHas j =>
    dsimp only
    split
    · exact paired_done (paired_whereHas exchange tied (.same _))
    · exact .throw
  | has j =>
    dsimp only
    split
    · exact paired_done (uniform_has exchange tied)
    · exact .throw
  | doesntHave j =>
    dsimp only
    split
    · exact paired_done (paired_doesntHave exchange tied (.same _))
    · exact .throw
  | whereRelation j =>
    dsimp only
    split
    · exact paired_done (paired_whereHas exchange tied (.same _))
    · exact .throw
  | whereBelongsTo =>
    dsimp only
    split
    · exact paired_done (uniform_whereBelongsTo exchange)
    · exact .throw
  | whereHasMorph j =>
    dsimp only
    split
    · exact paired_done (paired_whereHasMorph exchange tied (.same _))
    · exact .throw
  | whereMorphedTo =>
    dsimp only
    split
    · exact paired_done (uniform_whereMorphedTo exchange)
    · exact .throw
  | ofMany =>
    dsimp only
    split
    · exact paired_done (uniform_ofMany refl)
    · exact .throw
  | extremeOfMany extremum =>
    dsimp only
    split
    · exact paired_done (uniform_ofMany refl)
    · exact .throw
  | setPivotSource =>
    dsimp only
    split
    · exact paired_done uniform_setPivotSource
    · exact .throw
  | pivotAlias =>
    dsimp only
    split
    · exact paired_done uniform_setPivotAlias
    · exact .throw
  | withPivot => exact paired_done uniform_withPivot
  | when expected =>
    dsimp only
    split
    · refine paired_done ?_
      split
      · exact (paired_refine tied (.same _)).discard
      · exact paired_refineIfGiven tied (.same _)
    · exact .throw
  | tap =>
    dsimp only
    split
    · exact paired_done (paired_refine tied (.same _)).discard
    · exact .throw
  | scope =>
    dsimp only
    split
    · exact uniform_scope tied
    · exact .throw
  | clone =>
    dsimp only
    split
    · exact Paired.get.bind fun _ _ alike => .pure (.other alike)
    · exact .throw
  | compile =>
    dsimp only
    split
    · rename_i whole
      refine Paired.get.bind fun p q alike => ?_
      have select : AlikeResults (Fragment.Alike R)
          (if env.truthy whole then p.select.compile else p.select.body)
          (if env.truthy whole then q.select.compile else q.select.body) := by
        split
        · exact alike.select.compile refl
        · exact alike.select.body refl
      refine (Paired.ofExcept select).bind fun _ _ _ => .pure ?_
      exact .value rfl (fun _ _ => rfl) fun _ _ => rfl
    · exact .throw
  | statement =>
    dsimp only
    split
    · exact uniform_stated refl (fun _ => rfl) fun _ _ _ => rfl
    · exact .throw
  | toSql =>
    dsimp only
    split
    · exact uniform_stated refl (fun _ => rfl) fun _ _ _ => rfl
    · exact .throw
  | getBindings =>
    dsimp only
    split
    · exact uniform_stated refl (fun _ => rfl) fun _ _ _ => rfl
    · exact .throw
  | toRawSql =>
    dsimp only
    split
    · exact uniform_stated refl (fun _ => rfl) fun _ _ _ => rfl
    · exact .throw
  | eagerLoader => exact .pure (.value rfl (fun _ _ => rfl) fun _ _ => rfl)
  | running r => exact .pure (.value rfl (fun _ _ => rfl) fun _ _ => rfl)

/-- A call to a method runs alike for arguments that differ in places which the method opens. -/
theorem paired_perform {m : Method} {s : Signature} {opened : List (String × Place)}
    (takes : m.signature = some s) (opens : m.Opens opened) {bound others : List (Option Value)}
    (h : s.Bound (fun name => (Place.at_ opened name).Settled R) bound others) :
    Paired R (Answer.Alike R) (perform env inner m bound) (perform env inner m others) := by
  cases opens with
  | where_ j alone =>
    cases takes
    obtain _ | ⟨column, _ | ⟨operator, _ | ⟨value, ⟨⟩⟩⟩⟩ := h
    have compared := comparand_of_settled exchange.refl alone operator value
    cases column with
    | none => exact .throw
    | some column =>
      exact paired_done (paired_compareOrGroup exchange tied column.callbacks compared)
  | whereNot alone =>
    cases takes
    obtain _ | ⟨column, _ | ⟨operator, _ | ⟨value, ⟨⟩⟩⟩⟩ := h
    have compared := comparand_of_settled exchange.refl alone operator value
    cases column with
    | none => exact .throw
    | some column => exact paired_done (paired_whereNot exchange tied column.callbacks compared)
  | having j alone =>
    cases takes
    obtain _ | ⟨column, _ | ⟨operator, _ | ⟨value, ⟨⟩⟩⟩⟩ := h
    have compared := comparand_of_settled exchange.refl alone operator value
    cases column with
    | none => exact .throw
    | some column =>
      exact paired_done (paired_compareOrGroup exchange tied column.callbacks compared)
  | whereRelation j alone =>
    cases takes
    obtain _ | ⟨relation, _ | ⟨column, _ | ⟨operator, _ | ⟨value, ⟨⟩⟩⟩⟩⟩ := h
    have compared := comparand_of_settled exchange.refl alone operator value
    obtain rfl : _ = _ := by cases alone <;> exact Place.option_eq relation
    cases relation with
    | none => exact .throw
    | some _ => cases column with
      | none => exact .throw
      | some column =>
        have callbacks := callbacks_comparing column.callbacks compared
        exact paired_done (paired_whereHas exchange tied callbacks)
  | wherePart function alone =>
    cases takes
    obtain _ | ⟨column, _ | ⟨operator, _ | ⟨value, ⟨⟩⟩⟩⟩ := h
    have compared := comparand_of_settled exchange.refl alone operator value
    obtain rfl : _ = _ := by cases alone <;> exact Place.option_eq column
    cases column with
    | none => exact .throw
    | some _ => cases operator with
      | none => exact .throw
      | some _ => exact paired_done (paired_compareOrGroup exchange tied (.same _) compared)
  | whereLike negated =>
    cases takes
    obtain _ | ⟨column, _ | ⟨value, ⟨⟩⟩⟩ := h
    cases column with
    | none => exact .throw
    | some column => cases value with
      | none => exact .throw
      | some value =>
        have related := Place.Settled.value exchange.refl value
        exact paired_done (paired_compareOrGroup exchange tied column.callbacks (.last related))
  | whereEach every =>
    cases takes
    obtain _ | ⟨columns, _ | ⟨operator, _ | ⟨value, ⟨⟩⟩⟩⟩ := h
    obtain rfl := Place.option_eq columns
    obtain rfl := Place.option_eq operator
    cases columns with
    | none => exact .throw
    | some _ => cases operator with
      | none => exact .throw
      | some _ => cases value with
        | none => exact .throw
        | some value =>
          have related := Place.Settled.value exchange.refl value
          exact paired_done (steady_opened.uniform.follow fun _ => paired_whereEach related)
  | whereIn j negated =>
    cases takes
    obtain _ | ⟨column, _ | ⟨values, ⟨⟩⟩⟩ := h
    obtain rfl := Place.option_eq column
    cases column with
    | none => exact .throw
    | some _ => cases values with
      | none => exact .throw
      | some values =>
        exact paired_done ((paired_opened exchange.refl values).bind
          fun _ _ items => paired_whereIn items)
  | whereBetween j negated =>
    cases takes
    obtain _ | ⟨column, _ | ⟨values, ⟨⟩⟩⟩ := h
    obtain rfl := Place.option_eq column
    cases column with
    | none => exact .throw
    | some _ => cases values with
      | none => exact .throw
      | some values =>
        exact paired_done ((paired_opened exchange.refl values).bind
          fun _ _ items => paired_whereBetween items)
  | whereRaw j =>
    cases takes
    obtain _ | ⟨text, _ | ⟨bindings, ⟨⟩⟩⟩ := h
    obtain rfl := Place.option_eq text
    cases text with
    | none => exact .throw
    | some _ => cases bindings with
      | none => exact .throw
      | some bindings =>
        exact paired_done ((paired_givenBindings exchange.refl bindings).bind
          fun _ _ items => paired_addRaw items)
  | havingRaw =>
    cases takes
    obtain _ | ⟨text, _ | ⟨bindings, ⟨⟩⟩⟩ := h
    obtain rfl := Place.option_eq text
    cases text with
    | none => exact .throw
    | some _ => cases bindings with
      | none => exact .throw
      | some bindings =>
        exact paired_done ((paired_givenBindings exchange.refl bindings).bind
          fun _ _ items => paired_addRaw items)
  | selectRaw =>
    cases takes
    obtain _ | ⟨text, _ | ⟨bindings, ⟨⟩⟩⟩ := h
    obtain rfl := Place.option_eq text
    cases text with
    | none => exact .throw
    | some _ => cases bindings with
      | none => exact .throw
      | some bindings =>
        refine paired_done (steady_opened.uniform.follow fun _ => ?_)
        exact (paired_givenBindings exchange.refl bindings).bind fun _ _ items =>
          paired_selectRaw items
  | whereHas j =>
    cases takes
    obtain _ | ⟨relation, _ | ⟨callback, _ | ⟨operator, _ | ⟨count, ⟨⟩⟩⟩⟩⟩ := h
    obtain rfl := Place.option_eq relation
    obtain rfl := Place.option_eq operator
    obtain rfl := Place.option_eq count
    cases relation with
    | none => exact .throw
    | some _ => cases callback with
      | none => exact .throw
      | some callback => cases operator with
        | none => exact .throw
        | some _ => cases count with
          | none => exact .throw
          | some _ => exact paired_done (paired_whereHas exchange tied callback.callbacks)
  | doesntHave j =>
    cases takes
    obtain _ | ⟨relation, _ | ⟨callback, ⟨⟩⟩⟩ := h
    obtain rfl := Place.option_eq relation
    cases relation with
    | none => exact .throw
    | some _ => cases callback with
      | none => exact .throw
      | some callback => exact paired_done (paired_doesntHave exchange tied callback.callbacks)
  | whereHasMorph j =>
    cases takes
    obtain _ | ⟨relation, _ | ⟨types, _ | ⟨callback, ⟨⟩⟩⟩⟩ := h
    obtain rfl := Place.option_eq relation
    obtain rfl := Place.option_eq types
    cases relation with
    | none => exact .throw
    | some _ => cases types with
      | none => exact .throw
      | some _ => cases callback with
        | none => exact .throw
        | some callback => exact paired_done (paired_whereHasMorph exchange tied callback.callbacks)
  | when expected =>
    cases takes
    obtain _ | ⟨condition, _ | ⟨callback, _ | ⟨default, ⟨⟩⟩⟩⟩ := h
    obtain rfl := Place.option_eq condition
    cases condition with
    | none => exact .throw
    | some _ => cases callback with
      | none => exact .throw
      | some callback => cases default with
        | none => exact .throw
        | some default =>
          refine paired_done ?_
          split
          · exact (paired_refine tied callback.callbacks).discard
          · exact paired_refineIfGiven tied default.callbacks
  | tap =>
    cases takes
    obtain _ | ⟨callback, ⟨⟩⟩ := h
    cases callback with
    | none => exact .throw
    | some callback => exact paired_done (paired_refine tied callback.callbacks).discard
  | union all =>
    cases takes
    obtain _ | ⟨query, ⟨⟩⟩ := h
    cases query with
    | none => exact .throw
    | some query => exact paired_done (paired_union exchange tied query)

/-- Calls that differ in values alone run alike, if the calls below them do. -/
theorem paired_call {c d : Call} (h : Call.Varied R c d) :
    Paired R (Answer.Alike R) (call env inner c) (call env inner d) := by
  cases h with
  | same =>
    unfold call
    refine (steady_settleItems c.args).uniform.follow fun args => ?_
    refine (steady_settleNamed c.named).uniform.follow fun named => ?_
    split
    · exact .throw
    · exact Steady.ofExcept.uniform.follow fun bound => uniform_perform exchange tied
  | @given name m signature opened _ _ _ _ known takes opens inOrder names byName =>
    unfold call
    refine (paired_settleEach exchange tied inOrder).bind fun args others given => ?_
    refine (paired_settleNamed exchange tied names byName).bind fun named renamed called => ?_
    have bound : AlikeResults
        (signature.Bound fun name => (Place.at_ opened name).Settled R)
        (m.bind (.mk name args named)) (m.bind (.mk name others renamed)) := by
      unfold Method.bind
      rw [takes]
      refine Signature.bind_alike (fun p hp v default => ?_) given called
      exact .varied (.same (opens.given takes p hp v default))
    rw [Call.method, Call.method, known]
    exact (Paired.ofExcept bound).bind fun _ _ h => paired_perform exchange tied takes opens h

omit tied in
/-- By induction on how deep calls nest. -/
theorem tied_callUpTo (depth : Nat) : Tied R (callUpTo env depth) := by
  induction depth with
  | zero => exact fun _ _ _ => .throw
  | succ depth ih => exact fun _ _ h => paired_call exchange ih h

end

end Build

/-- The statement of what a chain of calls answers. -/
def Env.statementAfter (env : Env) (calls : List Call) (q : Query) : Except Error Fragment :=
  match env.chain calls q with
  | .ok .self after => after.statement.checked "statement"
  | .ok (.other r) _ => r.statement.checked "statement"
  | .ok (.value _) _ => .error .noAttribute
  | .error e _ => .error e

/-- Two chains of calls that differ in values alone, null for null and list for list of one length,
give statements of one text. Their values are as many, and differ only where a value was changed. -/
theorem alike_statements_of_varied {changes : Value → Value → Prop}
    (exchanged : ∀ v w, changes v w → v.isNull = w.isNull ∧ v.Settled ∧ w.Settled) (env : Env)
    {calls others : List Call}
    (varied : List.Forall₂ (Call.Varied fun v w => v = w ∨ changes v w) calls others) (q : Query) :
    AlikeResults (Fragment.Alike fun v w => v = w ∨ changes v w) (env.statementAfter calls q)
      (env.statementAfter others q) := by
  have exchange : Exchange fun v w => v = w ∨ changes v w :=
    { refl := fun _ => .inl rfl
      nulls := by
        rintro v w (rfl | h)
        · rfl
        · exact (exchanged v w h).1
      settled := by
        rintro v w (rfl | h)
        · exact .inl rfl
        · exact .inr (exchanged v w h).2 }
  have tied : Build.Tied _ (Build.callUpTo env Build.callDepth) :=
    Build.tied_callUpTo exchange Build.callDepth
  have runs := Build.paired_chain tied varied q q (.same exchange.refl q)
  unfold Env.statementAfter Env.chain Env.call
  generalize Build.chain (Build.callUpTo env Build.callDepth) calls q = r at runs
  generalize Build.chain (Build.callUpTo env Build.callDepth) others q = s at runs
  cases runs with
  | error e => exact .error e
  | ok answers after => cases answers with
    | self => exact after.statement.checked exchange.refl _
    | other h => exact h.statement.checked exchange.refl _
    | value => exact .error _

/-- Posts that are replied to by posts. -/
def threadedPost : Model :=
  { plainPost with
    declared := [("replies", 0, ⟨.direct [("kind", .text "has_many"), ("model", .model 0),
      ("foreign_key", .text "parent"), ("local_key", .text "id")], [], none, []⟩)] }

def threadedEnv : Env := { plainEnv with catalog := ⟨#[threadedPost]⟩ }

/-- Posts by numbers: those of a group, of the replies, and of a union. -/
def numberedCalls (i j k : Int) : List Call :=
  [.mk "where" [.recipe [.mk "where" [.text "a", .text ">", .int i] [],
      .mk "or_where_in" [.text "b", .list [.int j, .int k]] []] false] [],
    .mk "where_has" [.text "replies", .recipe [.mk "where" [.text "a", .int i] []] false] [],
    .mk "union" [.draft (.model 0) [.mk "where_not" [.text "c"] [("operator", .int k)]]] []]

def numberedPosts : Query :=
  { newPosts with
    select :=
      { newPosts.select with
        conditions := [.group .and false [.leaf .and (.compare "a" ">" (.int 1)),
            .leaf .or (.among false "b" [.int 2, .int 3])],
          .leaf .and (.raw "EXISTS (SELECT 1 FROM posts WHERE posts.parent = posts.id AND (a = ?))"
            [.int 1] "where_has")] }
    branches := [(false, { newPosts with
      select :=
        { newPosts.select with conditions := [.leaf .and (.compare "c" "!=" (.int 3))] } })] }

def numberedText : String :=
  "SELECT * FROM posts WHERE (a > ? OR b IN (?, ?)) AND (EXISTS (SELECT 1 FROM posts " ++
    "WHERE posts.parent = posts.id AND (a = ?))) UNION SELECT * FROM posts WHERE c != ?"

def OtherNumber (v w : Value) : Prop := ∃ i j : Int, v = .int i ∧ w = .int j

theorem varied_numberedCalls (i j k i' j' k' : Int) :
    List.Forall₂ (Call.Varied fun v w => v = w ∨ OtherNumber v w) (numberedCalls i j k)
      (numberedCalls i' j' k') := by
  have other : ∀ n m : Int, Value.int n = .int m ∨ OtherNumber (.int n) (.int m) :=
    fun n m => .inr ⟨n, m, rfl, rfl⟩
  have name : Place.fixed ≠ .absent := Place.noConfusion
  have column : Place.callback ≠ .absent := Place.noConfusion
  refine .cons ?_ (.cons ?_ (.cons ?_ .nil))
  · refine .given rfl rfl (.where_ .and false) (.cons (.callback ?_) .nil) rfl .nil
    refine .cons ?_ (.cons ?_ .nil)
    · exact .given rfl rfl (.where_ .and false)
        (.cons (.same column) (.cons (.same name) (.cons (.value (other i i')) .nil))) rfl .nil
    · have items : List.Forall₂ (fun v w => v = w ∨ OtherNumber v w) [.int j, .int k]
          [.int j', .int k'] := .cons (other j j') (.cons (other k k') .nil)
      exact .given rfl rfl (.whereIn .or false)
        (.cons (.same name) (.cons (.list items) .nil)) rfl .nil
  · refine .given rfl rfl (.whereHas .and) (.cons (.same name) (.cons (.callback ?_) .nil)) rfl .nil
    refine .cons ?_ .nil
    exact .given rfl rfl (.where_ .and true)
      (.cons (.same column) (.cons (.value (other i i')) .nil)) rfl .nil
  · refine .given rfl rfl (.union false) (.cons (.query ?_) .nil) rfl .nil
    refine .cons ?_ .nil
    exact .given rfl rfl (.whereNot true) (.cons (.same column) .nil) rfl
      (.cons (.value (other k k')) .nil)

theorem chain_numberedCalls :
    threadedEnv.chain (numberedCalls 1 2 3) newPosts = .ok .self numberedPosts := by
  rfl

set_option maxRecDepth 8000 in
theorem checked_numberedPosts : numberedPosts.statement.checked "statement" =
    .ok ⟨numberedText, [.int 1, .int 2, .int 3, .int 1, .int 3]⟩ := by
  refine Sql.Statement.checked_eq_ok_iff.mpr ⟨by rfl, ?_⟩
  rw [← String.ofList_toList (s := numberedText)]
  apply Guard.checkStatement_ofList
  · decide +kernel
  · decide +kernel

/-- With other numbers the statement is the same but for its values. -/
theorem numberedPosts_alike :
    threadedEnv.statementAfter (numberedCalls 1 2 3) newPosts =
        .ok ⟨numberedText, [.int 1, .int 2, .int 3, .int 1, .int 3]⟩ ∧
      ∃ f, threadedEnv.statementAfter (numberedCalls 5 7 9) newPosts = .ok f ∧
        f.text = numberedText ∧
        List.Forall₂ (fun v w => v = w ∨ OtherNumber v w)
          [.int 1, .int 2, .int 3, .int 1, .int 3] f.values := by
  have exchanged : ∀ v w, OtherNumber v w → v.isNull = w.isNull ∧ v.Settled ∧ w.Settled := by
    rintro _ _ ⟨i, j, rfl, rfl⟩
    exact ⟨rfl, fun _ _ => rfl, fun _ _ => rfl⟩
  have alike := alike_statements_of_varied exchanged threadedEnv
    (varied_numberedCalls 1 2 3 5 7 9) newPosts
  have first : threadedEnv.statementAfter (numberedCalls 1 2 3) newPosts =
      .ok ⟨numberedText, [.int 1, .int 2, .int 3, .int 1, .int 3]⟩ := by
    rw [Env.statementAfter, chain_numberedCalls]
    exact checked_numberedPosts
  rw [first] at alike
  cases second : threadedEnv.statementAfter (numberedCalls 5 7 9) newPosts with
  | error e =>
    rw [second] at alike
    cases alike
  | ok f =>
    rw [second] at alike
    cases alike with
    | ok h => exact ⟨first, f, rfl, h.text.symm, h.values⟩

end Relata
