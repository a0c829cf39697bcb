import Relata.Proofs.Query.Steps
import Relata.Proofs.Query.Varied

/-!
The steps that look into other queries run alike on alike queries: groups, and refinements of
relations by calls that differ in values alone. What such a step asks of the catalog and of the
relations is the same on both; so is the subquery but for its values.
-/

namespace Relata

open Sql (AlikeResults Clause Fragment Junction Select)

variable {R : Value → Value → Prop}

namespace Build

open Place (Callbacks)

variable {env : Env} {inner : Caller}

theorem uniform_model : Uniform R Eq (model env) := by
  refine Paired.get.bind fun p q alike => ?_
  rw [alike.select.source]
  split
  · exact .pure rfl
  · exact .throw

theorem uniform_require {relation : Value} : Uniform R Eq (require env relation) := by
  refine uniform_model.follow fun m => ?_
  exact Steady.ofExcept.uniform

theorem uniform_requireMorphTo {relation : Value} :
    Uniform R Eq (requireMorphTo env relation) := by
  refine uniform_require.follow fun d => ?_
  dsimp only
  split
  · exact .failed
  · exact .pure rfl

theorem uniform_link {d : Descriptor} {related : Model} {parent : String} :
    Uniform R Eq (link env d related parent) := by
  unfold link
  dsimp only
  split
  case h_1 | h_2 | h_3 | h_7 => exact .pure rfl
  case h_4 | h_5 | h_6 =>
    refine uniform_model.follow fun m => ?_
    refine Steady.ofExcept.uniform.follow fun tags => ?_
    exact .pure rfl
  case h_8 | h_9 =>
    refine Steady.ofExcept.uniform.follow fun between => ?_
    exact .pure rfl
  case h_10 => exact .throw

theorem alike_separated {word : String} {fs gs : List Fragment}
    (h : List.Forall₂ (Fragment.Alike R) fs gs) :
    (separated word fs).Alike R (separated word gs) := by
  induction h with
  | nil => exact ⟨rfl, .nil⟩
  | cons first rest ih => cases rest with
    | nil => exact first
    | cons second rest => exact (first.append (.plain word)).append ih

theorem alike_furtherConditions (refl : ∀ v, R v v) {p q : Query} (h : p.Alike R q)
    (table : String) : (furtherConditions p table).Alike R (furtherConditions q table) := by
  have inside := Clause.Alike.compile (h.select.whereList refl table)
  unfold furtherConditions
  dsimp only
  rw [inside.text]
  split
  · exact ⟨rfl, .nil⟩
  · exact ((Fragment.Alike.plain _).append inside).append (.plain _)

section

variable (exchange : Exchange R) (tied : Tied R inner)
include tied

theorem paired_refine {v w : Value} (h : Callbacks R v w) :
    Paired R (Answer.Alike R) (refine inner v) (refine inner w) := by
  have recipes : ∀ {xs ys : List Call} (answers : Bool), List.Forall₂ (Call.Varied R) xs ys →
      Paired R (Answer.Alike R) (refine inner (.recipe xs answers))
        (refine inner (.recipe ys answers)) := by
    intro xs ys answers h
    refine (paired_chain tied h).bind fun a b alike => ?_
    cases answers with
    | true => exact .pure alike
    | false => exact .pure (.value rfl (fun _ _ => rfl) (fun _ _ => rfl))
  cases h with
  | callback h => exact recipes _ h
  | same => cases v with
    | recipe calls answers => exact recipes answers (List.forall₂_same.mpr fun c _ => .same c)
    | _ => exact .throw

theorem paired_refineIfGiven {v w : Value} (h : Callbacks R v w) :
    Paired R (fun _ _ => True) (refineIfGiven inner v) (refineIfGiven inner w) := by
  unfold refineIfGiven
  rw [h.isNull]
  split
  · exact .pure trivial
  · exact (paired_refine tied h).discard

include exchange

theorem paired_group {target : Target} {junction : Junction} {negated : Bool} {v w : Value}
    (h : Callbacks R v w) :
    Paired R (Clause.Alike R) (group inner target junction negated v)
      (group inner target junction negated w) := by
  refine Paired.get.bind fun p q alike => ?_
  rw [alike.select.source, alike.select.table]
  dsimp only
  split
  · exact .failed
  · refine (Paired.on (.same exchange.refl _) (paired_refine tied h)).bind fun r s both => ?_
    have subqueries := both.2.select
    refine .pure (.group ?_)
    cases target with
    | conditions => exact subqueries.conditions
    | having => exact subqueries.having

theorem paired_compareOrGroup {target : Target} {junction : Junction} {column column' : Value}
    {operator value operator' value' : Option Value} (callbacks : Callbacks R column column')
    (h : Comparand R operator value operator' value') :
    Paired R (fun _ _ => True) (compareOrGroup inner target junction column operator value)
      (compareOrGroup inner target junction column' operator' value') := by
  have groups : Paired R (fun _ _ => True)
      (do addTo target (← group inner target junction false column))
      (do addTo target (← group inner target junction false column')) :=
    (paired_group exchange tied callbacks).bind fun _ _ alike => paired_addTo alike
  unfold compareOrGroup
  obtain rfl | ⟨first, second⟩ := callbacks.eq_or
  · split
    · exact groups
    · exact (paired_comparison h exchange.nulls).bind fun _ _ alike => paired_addTo alike
  · rw [if_pos first, if_pos second]
    exact groups

theorem paired_whereNot {column column' : Value} {operator value operator' value' : Option Value}
    (callbacks : Callbacks R column column') (h : Comparand R operator value operator' value') :
    Paired R (fun _ _ => True) (whereNot inner column operator value)
      (whereNot inner column' operator' value') := by
  have groups : Paired R (fun _ _ => True)
      (do addCondition (← group inner .conditions .and true column))
      (do addCondition (← group inner .conditions .and true column')) :=
    (paired_group exchange tied callbacks).bind fun _ _ alike => paired_addTo alike
  have compared : ∀ {o v w : Option Value}, Comparand R o v o w → Paired R (fun _ _ => True)
      (do addCondition (← comparison .and column o v))
      (do addCondition (← comparison .and column o w)) :=
    fun h => (paired_comparison h exchange.nulls).bind fun _ _ alike => paired_addTo alike
  unfold whereNot
  obtain rfl | ⟨first, second⟩ := callbacks.eq_or
  · split
    · exact groups
    · cases h with
      | missing => exact compared (.same exchange.refl _ _)
      | alone h => exact compared (.last h)
      | @last operator v w h =>
        dsimp only
        split
        · exact compared (.last h)
        · exact .throw
  · rw [if_pos first, if_pos second]
    exact groups

theorem paired_relatedRows {relation v w : Value} (h : Callbacks R v w) :
    Paired R (Fragment.Alike R) (relatedRows env inner relation v)
      (relatedRows env inner relation w) := by
  unfold relatedRows
  refine uniform_require.follow fun d => ?_
  dsimp only
  split
  · exact .failed
  · refine Paired.get.bind fun p q alike => ?_
    rw [alike.select.from_]
    refine Steady.ofExcept.uniform.follow fun related => ?_
    refine Steady.ofExcept.uniform.follow fun base => ?_
    have own : List.Forall₂ (Call.Varied R) d.constraints d.constraints :=
      List.forall₂_same.mpr fun c _ => .same c
    have below := (paired_chain tied own).discard.seq (paired_refineIfGiven tied h)
    refine (Paired.on (.same exchange.refl base) below).bind fun r s both => ?_
    refine uniform_link.follow fun link => .pure ?_
    exact ((Fragment.Alike.plain _).append (.same exchange.refl _)).append
      (alike_furtherConditions exchange.refl both.2 related.table)

theorem paired_existsQuery {relation v w : Value} (h : Callbacks R v w) :
    Paired R (Fragment.Alike R) (existsQuery env inner relation v)
      (existsQuery env inner relation w) :=
  (paired_relatedRows exchange tied h).bind fun _ _ rows =>
    .pure ((Fragment.Alike.plain _).append rows)

theorem paired_countQuery {relation v w : Value} (h : Callbacks R v w) :
    Paired R (Fragment.Alike R) (countQuery env inner relation v)
      (countQuery env inner relation w) :=
  (paired_relatedRows exchange tied h).bind fun _ _ rows =>
    .pure ((Fragment.Alike.plain _).append rows)

theorem paired_whereHas {junction : Junction} {relation operator count v w : Value}
    (h : Callbacks R v w) :
    Paired R (fun _ _ => True) (whereHas env inner junction relation v operator count)
      (whereHas env inner junction relation w operator count) := by
  unfold whereHas
  split
  · refine (paired_existsQuery exchange tied h).bind fun _ _ rows => paired_addFragment ?_
    exact ((Fragment.Alike.plain _).append rows).append (.plain _)
  · refine (paired_countQuery exchange tied h).bind fun _ _ rows => paired_addFragment ?_
    exact ((Fragment.Alike.plain _).append rows).append (.same exchange.refl _)

theorem uniform_has {junction : Junction} {relation operator count : Value} :
    Uniform R (fun _ _ => True) (has env inner junction relation operator count) := by
  unfold has
  split
  · exact paired_whereHas exchange tied (.same _)
  · exact paired_whereHas exchange tied (.same _)

theorem paired_doesntHave {junction : Junction} {relation v w : Value} (h : Callbacks R v w) :
    Paired R (fun _ _ => True) (doesntHave env inner junction relation v)
      (doesntHave env inner junction relation w) := by
  refine (paired_existsQuery exchange tied h).bind fun _ _ rows => paired_addFragment ?_
  exact ((Fragment.Alike.plain _).append rows).append (.plain _)

theorem uniform_withWhereHas {relation callback : Value} :
    Uniform R (fun _ _ => True) (withWhereHas env inner relation callback) :=
  (paired_whereHas exchange tied (.same _)).seq uniform_with_

theorem uniform_withCount {relations : Value} :
    Uniform R (fun _ _ => True) (withCount env inner relations) := by
  refine steady_counted.uniform.follow fun entries => Uniform.forM fun e => ?_
  refine (paired_countQuery exchange tied (.same e.2)).bind fun f g rows => ?_
  rw [rows.text]
  exact paired_selectRaw (.list rows.values)

theorem paired_targetWithTag {d : Descriptor} {parent : String} {found tag v w : Value}
    (h : Callbacks R v w) :
    Paired R (Fragment.Alike R) (targetWithTag env inner d parent v found tag)
      (targetWithTag env inner d parent w found tag) := by
  unfold targetWithTag
  dsimp only
  split
  · exact .failed
  · refine Steady.ofExcept.uniform.follow fun related => ?_
    refine Steady.ofExcept.uniform.follow fun base => ?_
    refine (Paired.on (.same exchange.refl base) (paired_refineIfGiven tied h)).bind
      fun r s both => .pure ?_
    have further := alike_furtherConditions exchange.refl both.2 related.table
    have heading := Fragment.Alike.same exchange.refl
      ⟨s!"({parent}.{Descriptor.written d.typeColumn} = ? AND EXISTS (", [tag]⟩
    exact (heading.append ((Fragment.Alike.plain _).append further)).append (.plain _)

theorem paired_targetOfType {d : Descriptor} {parent : String} {type v w : Value}
    (h : Callbacks R v w) :
    Paired R (Fragment.Alike R) (targetOfType env inner d parent v type)
      (targetOfType env inner d parent w type) := by
  unfold targetOfType
  dsimp only
  split
  · exact Steady.ofExcept.uniform.follow fun _ => paired_targetWithTag exchange tied h
  · refine Steady.ofExcept.uniform.follow fun tag => ?_
    exact Steady.ofExcept.uniform.follow fun _ => paired_targetWithTag exchange tied h

theorem paired_whereHasMorph {junction : Junction} {relation types v w : Value}
    (h : Callbacks R v w) :
    Paired R (fun _ _ => True) (whereHasMorph env inner junction relation types v)
      (whereHasMorph env inner junction relation types w) := by
  refine uniform_requireMorphTo.follow fun d => Paired.get.bind fun p q alike => ?_
  rw [alike.select.from_]
  refine (Paired.mapM fun _ => paired_targetOfType exchange tied h).bind fun fs gs parts => ?_
  apply paired_addFragment
  rw [Clause.Alike.isEmpty_eq parts]
  split
  · exact .plain _
  · exact alike_separated parts

end

theorem uniform_inferOwner {owner : Value} : Uniform R Eq (inferOwner env owner) := by
  refine uniform_model.follow fun self => ?_
  dsimp only
  refine Uniform.follow (.filterM fun name => ?_) fun candidates => ?_
  · refine uniform_require.follow fun d => ?_
    split
    · exact .pure rfl
    · exact Steady.ofExcept.uniform.follow fun _ => .pure rfl
  · split
    · exact .pure rfl
    · exact .throw

theorem uniform_condition (exchange : Exchange R) {junction : Junction} {column v : Value} :
    Uniform R (fun _ _ => True) (do addCondition (← comparison junction column (some v) none)) :=
  (paired_comparison (.same exchange.refl _ _) exchange.nulls).bind
    fun _ _ alike => paired_addTo alike

theorem uniform_whereNothing (refl : ∀ v, R v v) : Uniform R (fun _ _ => True) whereNothing :=
  paired_addRaw (.same refl _)

theorem uniform_whereOwned (exchange : Exchange R) {several : Bool} {items : List Value}
    {relation : Value} :
    Uniform R (fun _ _ => True) (whereOwned env several items relation) := by
  refine uniform_require.follow fun d => ?_
  dsimp only
  split
  · exact .failed
  · refine (Steady.mapM fun _ => steady_attributeOf).uniform.follow fun keys => ?_
    split
    · exact uniform_whereNothing exchange.refl
    · split
      · exact paired_whereIn (.same exchange.refl _)
      · exact uniform_condition exchange

theorem uniform_whereBelongsTo (exchange : Exchange R) {related relation : Value} :
    Uniform R (fun _ _ => True) (whereBelongsTo env related relation) := by
  unfold whereBelongsTo
  dsimp only
  split
  · exact uniform_whereNothing exchange.refl
  · split
    · refine Uniform.follow ?_ fun name => uniform_whereOwned exchange
      exact uniform_inferOwner.map fun _ _ same => congrArg Value.text same
    · exact uniform_whereOwned exchange

theorem uniform_whereMorphedTo (exchange : Exchange R) {relation target : Value} :
    Uniform R (fun _ _ => True) (whereMorphedTo env relation target) := by
  refine uniform_requireMorphTo.follow fun d => ?_
  refine (paired_comparison (.same exchange.refl _ _) exchange.nulls).bind fun _ _ alike => ?_
  refine (paired_addTo alike).seq ?_
  exact steady_attributeOf.uniform.follow fun id => uniform_condition exchange

theorem uniform_ofMany (refl : ∀ v, R v v) {column aggregate : Value} :
    Uniform R (fun _ _ => True) (ofMany column aggregate) := by
  rw [ofMany_eq]
  refine Steady.ofExcept.uniform.follow fun extremum => ?_
  refine Paired.get.bind fun p q alike => ?_
  have unbound : ({ p.select with bindings := [] } : Select).Alike R
      { q.select with bindings := [] } :=
    { alike.select with rest := alike.select.rest, bindings := .nil }
  have sub := unbound.update (f := fun s => { s with
    columns := [.text s!"{extremum.function}({column.shown}) AS aggregate_value"]
    orders := []
    limit := .null
    offset := .null }) fun _ _ _ _ => rfl
  refine (Paired.ofExcept (sub.body refl)).bind fun f g body => ?_
  refine Paired.seq (paired_addFragment ?_) (uniform_orderBy.seq uniform_limit)
  exact ((Fragment.Alike.plain _).append body).append (.plain _)

theorem uniform_checkedStatement (refl : ∀ v, R v v) {context : String} :
    Uniform R (Fragment.Alike R) (checkedStatement context) :=
  Paired.get.bind fun _ _ alike => .ofExcept (alike.statement.checked refl context)

end Build

end Relata
