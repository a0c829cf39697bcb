import Relata.Proofs.Query.Paired

/-!
Steps on the query itself, in two runs side by side. A step runs alike on queries that differ in
values alone, and it does so too where it is given related values for its placeholders.
-/

namespace Relata

open Sql (AlikeResults Clause Fragment Junction Select)

variable {R : Value → Value → Prop}

/-- Values that are gone through item by item, the items related. -/
structure Value.ItemsAlike (R : Value → Value → Prop) (v w : Value) : Prop where
  items : Option.Rel (List.Forall₂ R) v.items? w.items?
  truthy : v.truthy = w.truthy

namespace Value.ItemsAlike

theorem same (refl : ∀ v, R v v) (v : Value) : v.ItemsAlike R v := by
  refine ⟨?_, rfl⟩
  cases v.items? with
  | none => exact .none
  | some items => exact .some (List.forall₂_same.mpr fun x _ => refl x)

theorem list {vs ws : List Value} (h : List.Forall₂ R vs ws) :
    (Value.list vs).ItemsAlike R (.list ws) :=
  ⟨.some h, congrArg (!·) (Clause.Alike.isEmpty_eq h)⟩

theorem tuple {vs ws : List Value} (h : List.Forall₂ R vs ws) :
    (Value.tuple vs).ItemsAlike R (.tuple ws) :=
  ⟨.some h, congrArg (!·) (Clause.Alike.isEmpty_eq h)⟩

end Value.ItemsAlike

namespace Build

/-- The value of a comparison comes last: after the operator, or in its place. -/
inductive Comparand (R : Value → Value → Prop) :
    Option Value → Option Value → Option Value → Option Value → Prop where
  | missing : Comparand R none none none none
  | alone {v w : Value} (h : R v w) : Comparand R (some v) none (some w) none
  | last {operator : Option Value} {v w : Value} (h : R v w) :
    Comparand R operator (some v) operator (some w)

theorem Comparand.same (refl : ∀ v, R v v) : ∀ operator value : Option Value,
    Comparand R operator value operator value
  | none, none => .missing
  | some v, none => .alone (refl v)
  | _, some v => .last (refl v)

theorem Uniform.update {f : Select → Select} (blind : Select.Blind f) :
    Uniform R (fun _ _ => True) (modifySelect f) :=
  .changeSelect fun _ _ alike => alike.update blind

theorem paired_addTo {target : Target} {c d : Clause} (h : c.Alike R d) :
    Paired R (fun _ _ => True) (addTo target c) (addTo target d) := by
  apply Paired.changeSelect
  intro s t alike
  have one : List.Forall₂ (Clause.Alike R) [c] [d] := .cons h .nil
  cases target with
  | conditions =>
    exact { alike with rest := alike.rest, conditions := List.rel_append alike.conditions one }
  | having => exact { alike with rest := alike.rest, having := List.rel_append alike.having one }

theorem paired_itemsOf {v w : Value} (h : v.ItemsAlike R w) :
    Paired R (List.Forall₂ R) (itemsOf v) (itemsOf w) := by
  have items := h.items
  unfold itemsOf
  generalize v.items? = vs at items
  generalize w.items? = ws at items
  cases items with
  | none => exact .throw
  | some alike => exact .pure alike

theorem paired_bindingsOf {v w : Value} (h : v.ItemsAlike R w) :
    Paired R (List.Forall₂ R) (bindingsOf v) (bindingsOf w) := by
  unfold bindingsOf
  rw [h.truthy]
  split
  · exact paired_itemsOf h
  · exact .pure .nil

theorem uniform_checkNames {issues : List Issue} :
    Uniform R (fun _ _ => True) (checkNames issues) :=
  steady_checkNames.uniform.any

theorem uniform_checkKey {v : Value} : Uniform R (fun _ _ => True) (checkKey v) :=
  steady_checkKey.uniform.any

/-- A test of a column is refused or added before its values matter. -/
theorem paired_checked {target : Target} {issues : List Issue} {c d : Clause} (h : c.Alike R d) :
    Paired R (fun _ _ => True) (do checkNames issues; addTo target c)
      (do checkNames issues; addTo target d) :=
  uniform_checkNames.seq (paired_addTo h)

theorem uniform_request {path : Value} {columns : List Value} {callback : Value} :
    Uniform R (fun _ _ => True) (request path columns callback) := by
  have refined : Uniform R (fun _ _ => True)
      (if !callback.isNull then do checkKey path; modifyLoads (·.refine path callback)
        else pure ()) := by
    split
    · exact uniform_checkKey.seq .changeLoads
    · exact .pure trivial
  unfold request
  refine Paired.changeLoads.seq ?_
  dsimp only
  split
  · exact uniform_checkKey.seq (Paired.changeLoads.seq refined)
  · exact refined

theorem uniform_withPath {path callback : Value} :
    Uniform R (fun _ _ => True) (withPath path callback) := by
  refine Steady.ofExcept.uniform.follow fun read => ?_
  exact uniform_request

theorem uniform_with_ {relations callback : Value} :
    Uniform R (fun _ _ => True) (with_ relations callback) := by
  have entry : ∀ path value, Uniform R (fun _ _ => True) (withEntry path value) := by
    intro path value
    unfold withEntry
    split
    · refine Steady.ofExcept.uniform.follow fun read => ?_
      exact uniform_request
    · exact uniform_withPath
  unfold with_
  split
  · exact uniform_withPath
  · exact .forM fun e => entry e.1 e.2
  · refine steady_itemsOf.uniform.follow fun items => ?_
    exact Uniform.forM fun _ => uniform_withPath

theorem uniform_without {values : List Value} :
    Uniform R (fun _ _ => True) (without values) := by
  have keys : ∀ vs : List Value, Uniform R (fun _ _ => True) (vs.forM checkKey) :=
    fun _ => .forM fun _ => uniform_checkKey
  refine (keys _).seq (Paired.get.bind fun p q alike => ?_)
  rw [alike.loads]
  exact (keys _).seq .changeLoads

theorem uniform_withOnly {relations : Value} :
    Uniform R (fun _ _ => True) (withOnly relations) :=
  Paired.changeLoads.seq uniform_with_

/-- Whether a comparison becomes a test for null is the same for values that are both null or
both not. -/
theorem paired_comparison {junction : Junction} {column : Value}
    {operator value operator' value' : Option Value}
    (h : Comparand R operator value operator' value') (nulls : ∀ v w, R v w → v.isNull = w.isNull) :
    Paired R (Clause.Alike R) (comparison junction column operator value)
      (comparison junction column operator' value') := by
  have rest : ∀ o v w : Value, R v w → Paired R (Clause.Alike R)
      (if v.isNull && equalWords.contains (o.asText?.getD "") then do
        checkNames (Sql.nameIssues "column" column)
        return .leaf junction (.null false column.shown)
      else if v.isNull && unequalWords.contains (o.asText?.getD "") then do
        checkNames (Sql.nameIssues "column" column)
        return .leaf junction (.null true column.shown)
      else do
        checkNames (Sql.nameIssues "column" column ++ Sql.nameIssues "operator" o)
        return .leaf junction (.compare column.shown o.shown v))
      (if w.isNull && equalWords.contains (o.asText?.getD "") then do
        checkNames (Sql.nameIssues "column" column)
        return .leaf junction (.null false column.shown)
      else if w.isNull && unequalWords.contains (o.asText?.getD "") then do
        checkNames (Sql.nameIssues "column" column)
        return .leaf junction (.null true column.shown)
      else do
        checkNames (Sql.nameIssues "column" column ++ Sql.nameIssues "operator" o)
        return .leaf junction (.compare column.shown o.shown w)) := by
    intro o v w hvw
    rw [nulls v w hvw]
    split
    · exact uniform_checkNames.seq (.pure (.leaf .null))
    · split
      · exact uniform_checkNames.seq (.pure (.leaf .null))
      · exact uniform_checkNames.seq (.pure (.leaf (.compare hvw)))
  cases h with
  | missing => exact .throw
  | alone h => exact rest (.text "=") _ _ h
  | @last operator v w h => cases operator <;> exact rest _ v w h

theorem alike_raw {junction : Junction} {text : Value} {bindings others : List Value}
    {context : String} (h : List.Forall₂ R bindings others) :
    AlikeResults (Clause.Alike R) (Clause.raw junction text bindings context)
      (Clause.raw junction text others context) := by
  unfold Clause.raw
  refine .follow fun _ => ?_
  cases text with
  | text s => exact .ok (.leaf (.raw h))
  | _ => exact .error _

theorem paired_addRaw {target : Target} {junction : Junction} {text bindings others : Value}
    {context : String} (h : bindings.ItemsAlike R others) :
    Paired R (fun _ _ => True) (addRaw target junction text bindings context)
      (addRaw target junction text others context) :=
  (paired_bindingsOf h).bind fun _ _ items =>
    (Paired.ofExcept (alike_raw items)).bind fun _ _ alike => paired_addTo alike

theorem paired_addFragment {junction : Junction} {f g : Fragment} {context : String}
    (h : f.Alike R g) :
    Paired R (fun _ _ => True) (addFragment junction f context)
      (addFragment junction g context) := by
  unfold addFragment
  rw [h.text]
  exact (Paired.ofExcept (alike_raw h.values)).bind fun _ _ alike => paired_addTo alike

theorem paired_whereIn {junction : Junction} {negated : Bool} {column values others : Value}
    (h : values.ItemsAlike R others) :
    Paired R (fun _ _ => True) (whereIn junction negated column values)
      (whereIn junction negated column others) :=
  (paired_itemsOf h).bind fun _ _ items => paired_checked (.leaf (.among items))

theorem uniform_whereNull {junction : Junction} {negated : Bool} {column : Value} :
    Uniform R (fun _ _ => True) (whereNull junction negated column) :=
  paired_checked (.leaf .null)

theorem paired_whereBetween {junction : Junction} {negated : Bool} {column values others : Value}
    (h : values.ItemsAlike R others) :
    Paired R (fun _ _ => True) (whereBetween junction negated column values)
      (whereBetween junction negated column others) := by
  refine (paired_itemsOf h).bind fun items others alike => ?_
  have count := alike.length_eq
  cases alike with
  | nil => exact .throw
  | cons first rest => cases rest with
    | nil => exact .throw
    | cons second rest => cases rest with
      | nil => exact paired_checked (.leaf (.between first second))
      | cons third rest =>
        dsimp only
        rw [count]
        exact .throw

theorem uniform_whereColumn (refl : ∀ v, R v v) {junction : Junction} {first operator : Value}
    {second : Option Value} :
    Uniform R (fun _ _ => True) (whereColumn junction first operator second) :=
  paired_addFragment (.same refl _)

theorem paired_whereEach {every : Bool} {columns operator v w : Value} (h : R v w) :
    Paired R (fun _ _ => True) (whereEach every columns operator v)
      (whereEach every columns operator w) := by
  refine steady_itemsOf.uniform.follow fun items => ?_
  have children : Paired R (List.Forall₂ (Clause.Alike R))
      (items.mapM fun column => do
        checkNames (Sql.nameIssues "column" column ++ Sql.nameIssues "operator" operator)
        return .leaf (if every then .and else .or) (.compare column.shown operator.shown v))
      (items.mapM fun column => do
        checkNames (Sql.nameIssues "column" column ++ Sql.nameIssues "operator" operator)
        return .leaf (if every then .and else .or) (.compare column.shown operator.shown w)) :=
    .mapM fun column => uniform_checkNames.seq (.pure (.leaf (.compare h)))
  exact children.bind fun _ _ alike => paired_addTo (.group alike)

theorem uniform_join {kind : Sql.JoinKind} {table first operator second : Value} :
    Uniform R (fun _ _ => True) (join kind table first operator second) := by
  refine Steady.ofExcept.uniform.follow fun j => ?_
  exact Uniform.update fun _ _ _ _ => rfl

theorem uniform_select {values : List Value} : Uniform R (fun _ _ => True) (select values) := by
  unfold select
  exact Uniform.update fun _ _ _ _ => rfl

theorem uniform_addSelect {values : List Value} : Uniform R (fun _ _ => True) (addSelect values) :=
  Uniform.update fun _ _ _ _ => rfl

theorem paired_selectRaw {text bindings others : Value} (h : bindings.ItemsAlike R others) :
    Paired R (fun _ _ => True) (selectRaw text bindings) (selectRaw text others) := by
  refine Steady.ofExcept.uniform.any.seq (Paired.seq (Uniform.update fun _ _ _ _ => rfl) ?_)
  refine (paired_bindingsOf h).bind fun _ _ items => .changeSelect fun s t alike => ?_
  exact { alike with rest := alike.rest, bindings := List.rel_append alike.bindings items }

theorem uniform_groupBy {values : List Value} : Uniform R (fun _ _ => True) (groupBy values) :=
  Uniform.update fun _ _ _ _ => rfl

theorem uniform_orderBy {column direction : Value} :
    Uniform R (fun _ _ => True) (orderBy column direction) := by
  unfold orderBy
  split
  · dsimp only
    split
    · exact .failed
    · exact uniform_checkNames.seq (Uniform.update fun _ _ _ _ => rfl)
  · exact .throw

theorem uniform_reorder {column direction : Value} :
    Uniform R (fun _ _ => True) (reorder column direction) := by
  unfold reorder
  refine Paired.seq (Uniform.update fun _ _ _ _ => rfl) ?_
  split
  · exact uniform_orderBy
  · exact .pure trivial

theorem uniform_limit {count : Value} : Uniform R (fun _ _ => True) (limit count) :=
  Uniform.update fun _ _ _ _ => rfl

theorem uniform_offset {count : Value} : Uniform R (fun _ _ => True) (offset count) :=
  Uniform.update fun _ _ _ _ => rfl

theorem uniform_forPage {page size : Value} : Uniform R (fun _ _ => True) (forPage page size) := by
  refine Steady.ofExcept.uniform.follow fun before => ?_
  exact uniform_offset.seq uniform_limit

theorem uniform_setTrashed {mode : Sql.Trashed} {method : String} :
    Uniform R (fun _ _ => True) (setTrashed mode method) := by
  refine Paired.get.bind fun p q alike => ?_
  rw [alike.select.source]
  dsimp only
  split
  · exact .failed
  · exact Uniform.update fun _ _ _ _ => rfl

theorem uniform_setPivotSource {table label : Value} :
    Uniform R (fun _ _ => True) (setPivotSource table label) := by
  refine Paired.get.bind fun p q alike => ?_
  rw [alike.select.pivot]
  split
  · exact uniform_checkNames.seq (Uniform.update fun _ _ _ _ => rfl)
  · exact .pure trivial

theorem uniform_setPivotAlias {label : Value} : Uniform R (fun _ _ => True) (setPivotAlias label) :=
  Uniform.update fun _ _ _ _ => rfl

theorem uniform_withPivot {columns : List Value} :
    Uniform R (fun _ _ => True) (withPivot columns) := by
  refine .forM fun column => Paired.get.bind fun p q alike => ?_
  rw [alike.select.pivot]
  split
  · exact .pure trivial
  · split
    · unfold selectPivot
      exact Uniform.update fun _ _ _ _ => rfl
    · exact .pure trivial

end Build

end Relata
