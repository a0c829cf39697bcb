import Relata.Proofs.Query.Steps

/-!
How deep calls may nest makes no difference to those that end well. `Within x y` says of two steps
that whatever the first comes to, the second comes to as well; each step that makes calls below it
lies within the same step with a caller that can do more. Main statement: a call that ends well at
one depth ends the same way at every greater one.
-/

namespace Relata

namespace Build

/-- Where the first step ends well, the second ends the same way. -/
def Within {α : Type} (x y : Build α) : Prop := ∀ q a after, x q = .ok a after → y q = .ok a after

namespace Within

variable {α β : Type} {x y : Build α}

theorem refl (x : Build α) : Within x x := fun _ _ _ run => run

theorem trans {z : Build α} (h : Within x y) (rest : Within y z) : Within x z :=
  fun q a after run => rest q a after (h q a after run)

theorem throw {e : Error} : Within (MonadExcept.throw e) y := by
  intro q a after run
  cases run

theorem bind {f g : α → Build β} (h : Within x y) (rest : ∀ a, Within (f a) (g a)) :
    Within (x >>= f) (y >>= g) := by
  intro q b after run
  obtain ⟨a, between, first, second⟩ := ok_of_bind run
  exact bind_eq_ok (h q a between first) (rest a between b after second)

theorem map {f : α → β} (h : Within x y) : Within (f <$> x) (f <$> y) := by
  rw [map_eq_pure_bind, map_eq_pure_bind]
  exact h.bind fun _ => refl _

theorem discard (h : Within x y) : Within (Functor.discard x) (Functor.discard y) := h.map

/-- What follows a common first step. -/
theorem after {f g : α → Build β} (rest : ∀ a, Within (f a) (g a)) :
    Within (x >>= f) (x >>= g) :=
  (refl x).bind rest

theorem on {other : Query} (h : Within x y) : Within (Build.on other x) (Build.on other y) := by
  intro q r after run
  unfold Build.on EStateM.run at run ⊢
  cases hx : x other with
  | ok a end_ =>
    rw [h other a end_ hx]
    rwa [hx] at run
  | error e end_ =>
    rw [hx] at run
    cases run

theorem foldlM {f g : β → α → Build β} (h : ∀ b a, Within (f b a) (g b a)) (items : List α) :
    ∀ start, Within (items.foldlM f start) (items.foldlM g start) := by
  induction items with
  | nil => exact fun start => refl _
  | cons a rest ih =>
    intro start
    rw [List.foldlM_cons, List.foldlM_cons]
    exact (h start a).bind ih

theorem mapM {f g : α → Build β} (h : ∀ a, Within (f a) (g a)) (items : List α) :
    Within (items.mapM f) (items.mapM g) := by
  induction items with
  | nil => exact refl _
  | cons a rest ih =>
    rw [List.mapM_cons, List.mapM_cons]
    exact (h a).bind fun _ => ih.bind fun _ => refl _

theorem forM {f g : α → Build PUnit} (h : ∀ a, Within (f a) (g a)) (items : List α) :
    Within (items.forM f) (items.forM g) := by
  induction items with
  | nil => exact refl _
  | cons a rest ih => exact (h a).bind fun _ => ih

end Within

/-- Every call that ends well by the first caller ends the same way by the second. -/
def Grown (inner outer : Caller) : Prop := ∀ c, Within (inner c) (outer c)

variable {env : Env} {inner outer : Caller}

theorem within_chain (grown : Grown inner outer) (calls : List Call) :
    Within (chain inner calls) (chain outer calls) := by
  refine Within.foldlM (fun answer c => ?_) calls _
  unfold callOn
  split
  · exact grown c
  · exact (grown c).on.bind fun _ => .refl _
  · exact .throw

theorem within_buildDraft (grown : Grown inner outer) (base : Value) (calls : List Call) :
    Within (buildDraft env inner base calls) (buildDraft env outer base calls) :=
  .after fun _ => (within_chain grown calls).on.bind fun _ => .refl _

mutual

theorem within_settle (grown : Grown inner outer) :
    ∀ v : Value, Within (settle env inner v) (settle env outer v)
  | .draft base calls => by
    unfold settle
    exact (within_buildDraft grown base calls).bind fun _ => .refl _
  | .list items => by
    unfold settle
    exact (within_settleItems grown items).map
  | .tuple items => by
    unfold settle
    exact (within_settleItems grown items).map
  | .dict entries => by
    unfold settle
    exact (within_settleEntries grown entries).bind fun _ => .refl _
  | .variable _ _ | .thrown _ | .parameter _ | .null | .bool _ | .int _ | .float _ | .text _
  | .time _ | .model _ | .object _ | .collection _ | .query _ | .registry _ | .tagMap _ | .task _
  | .relation _ _ | .failure _ | .portrait _ | .recipe _ _ => by
    unfold settle
    exact .refl _

theorem within_settleItems (grown : Grown inner outer) : ∀ items : List Value,
    Within (settleItems env inner items) (settleItems env outer items)
  | [] => .refl _
  | v :: rest =>
    (within_settle grown v).bind fun _ => (within_settleItems grown rest).bind fun _ => .refl _

theorem within_settleEntries (grown : Grown inner outer) : ∀ entries : List (Value × Value),
    Within (settleEntries env inner entries) (settleEntries env outer entries)
  | [] => .refl _
  | (k, v) :: rest => (within_settle grown k).bind fun _ => (within_settle grown v).bind fun _ =>
      (within_settleEntries grown rest).bind fun _ => .refl _

end

theorem within_settleNamed (grown : Grown inner outer) :
    ∀ named : List (String × Value),
    Within (settleNamed env inner named) (settleNamed env outer named)
  | [] => .refl _
  | (_, v) :: rest => (within_settle grown v).bind fun _ =>
      (within_settleNamed grown rest).bind fun _ => .refl _

section

variable (grown : Grown inner outer)
include grown

theorem within_refine (callback : Value) :
    Within (refine inner callback) (refine outer callback) := by
  unfold refine
  split
  · exact (within_chain grown _).bind fun _ => .refl _
  · exact .throw

theorem within_refineIfGiven (callback : Value) :
    Within (refineIfGiven inner callback) (refineIfGiven outer callback) := by
  unfold refineIfGiven
  split
  · exact .refl _
  · exact (within_refine grown callback).discard

theorem within_group (target : Target) (junction : Sql.Junction) (negated : Bool)
    (callback : Value) :
    Within (group inner target junction negated callback)
      (group outer target junction negated callback) := by
  refine Within.after fun q => ?_
  dsimp only
  split
  · exact .refl _
  · exact (within_refine grown callback).on.bind fun _ => .refl _

theorem within_compareOrGroup (target : Target) (junction : Sql.Junction) (column : Value)
    (operator value : Option Value) :
    Within (compareOrGroup inner target junction column operator value)
      (compareOrGroup outer target junction column operator value) := by
  unfold compareOrGroup
  split
  · exact (within_group grown _ _ _ _).bind fun _ => .refl _
  · exact .refl _

theorem within_whereNot (column : Value) (operator value : Option Value) :
    Within (whereNot inner column operator value) (whereNot outer column operator value) := by
  unfold whereNot
  split
  · exact (within_group grown _ _ _ _).bind fun _ => .refl _
  · exact .refl _

theorem within_queryOf (v : Value) : Within (queryOf env inner v) (queryOf env outer v) := by
  unfold queryOf
  split
  · exact .refl _
  · exact (within_buildDraft grown _ _).bind fun _ => .refl _
  · exact .throw
  · exact .throw

theorem within_opened (v : Value) : Within (opened env inner v) (opened env outer v) := by
  unfold opened
  split
  · exact (within_buildDraft grown _ _).bind fun _ => .refl _
  · exact .refl _

theorem within_givenBindings (v : Value) :
    Within (givenBindings env inner v) (givenBindings env outer v) := by
  unfold givenBindings
  split
  · exact within_opened grown v
  · exact .refl _

theorem within_givenPaths (v : Value) :
    Within (givenPaths env inner v) (givenPaths env outer v) := by
  unfold givenPaths
  split
  · exact .refl _
  · exact within_opened grown _

theorem within_relatedRows (relation callback : Value) :
    Within (relatedRows env inner relation callback) (relatedRows env outer relation callback) := by
  refine Within.after fun d => ?_
  dsimp only
  split
  · exact .refl _
  · refine Within.after fun parent => Within.after fun related => Within.after fun base => ?_
    have refined := (within_chain grown d.constraints).discard.bind fun _ =>
      within_refineIfGiven grown callback
    exact refined.on.bind fun _ => .refl _

theorem within_existsQuery (relation callback : Value) :
    Within (existsQuery env inner relation callback) (existsQuery env outer relation callback) :=
  (within_relatedRows grown relation callback).bind fun _ => .refl _

theorem within_countQuery (relation callback : Value) :
    Within (countQuery env inner relation callback) (countQuery env outer relation callback) :=
  (within_relatedRows grown relation callback).bind fun _ => .refl _

theorem within_whereHas (junction : Sql.Junction) (relation callback operator count : Value) :
    Within (whereHas env inner junction relation callback operator count)
      (whereHas env outer junction relation callback operator count) := by
  unfold whereHas
  dsimp only
  split
  · exact (within_existsQuery grown relation callback).bind fun _ => .refl _
  · exact (within_countQuery grown relation callback).bind fun _ => .refl _

theorem within_has (junction : Sql.Junction) (relation operator count : Value) :
    Within (has env inner junction relation operator count)
      (has env outer junction relation operator count) := by
  unfold has
  split
  · exact within_whereHas grown _ _ _ _ _
  · exact within_whereHas grown _ _ _ _ _

theorem within_doesntHave (junction : Sql.Junction) (relation callback : Value) :
    Within (doesntHave env inner junction relation callback)
      (doesntHave env outer junction relation callback) :=
  (within_existsQuery grown relation callback).bind fun _ => .refl _

theorem within_withCount (relations : Value) :
    Within (withCount env inner relations) (withCount env outer relations) :=
  .after fun _ => .forM (fun _ => (within_countQuery grown _ _).bind fun _ => .refl _) _

theorem within_targetWithTag (d : Descriptor) (parent : String) (callback found tag : Value) :
    Within (targetWithTag env inner d parent callback found tag)
      (targetWithTag env outer d parent callback found tag) := by
  unfold targetWithTag
  dsimp only
  split
  · exact .refl _
  · refine Within.after fun related => Within.after fun base => ?_
    exact (within_refineIfGiven grown callback).on.bind fun _ => .refl _

theorem within_targetOfType (d : Descriptor) (parent : String) (callback type : Value) :
    Within (targetOfType env inner d parent callback type)
      (targetOfType env outer d parent callback type) := by
  unfold targetOfType
  dsimp only
  split
  · exact Within.after fun _ => Within.after fun _ => within_targetWithTag grown _ _ _ _ _
  · exact Within.after fun _ => Within.after fun _ => within_targetWithTag grown _ _ _ _ _

theorem within_whereHasMorph (junction : Sql.Junction) (relation types callback : Value) :
    Within (whereHasMorph env inner junction relation types callback)
      (whereHasMorph env outer junction relation types callback) := by
  refine Within.after fun d => Within.after fun q => ?_
  exact (Within.mapM (fun type => within_targetOfType grown _ _ _ type) _).bind fun _ => .refl _

theorem within_scope (name : Value) (args : List Value) :
    Within (scope env inner name args) (scope env outer name args) := by
  refine Within.after fun m => ?_
  split
  · exact .refl _
  · exact (within_chain grown _).bind fun _ => .refl _

theorem within_perform (m : Method) (args : List (Option Value)) :
    Within (perform env inner m args) (perform env outer m args) := by
  cases m with
  | selectRaw =>
    unfold perform
    dsimp only
    split
    · refine Within.bind ((within_opened grown _).bind fun text => ?_) fun _ => .refl _
      exact (within_givenBindings grown _).bind fun _ => .refl _
    · exact .refl _
  | where_ | whereLike | wherePart | having =>
    unfold perform
    dsimp only
    split
    · exact (within_compareOrGroup grown _ _ _ _ _).bind fun _ => .refl _
    · exact .refl _
  | whereNot =>
    unfold perform
    dsimp only
    split
    · exact (within_whereNot grown _ _ _).bind fun _ => .refl _
    · exact .refl _
  | whereIn | whereBetween | whereEach =>
    unfold perform
    dsimp only
    split
    · exact ((within_opened grown _).bind fun _ => .refl _).bind fun _ => .refl _
    · exact .refl _
  | whereRaw | havingRaw =>
    unfold perform
    dsimp only
    split
    · exact ((within_givenBindings grown _).bind fun _ => .refl _).bind fun _ => .refl _
    · exact .refl _
  | union =>
    unfold perform
    dsimp only
    split
    · exact ((within_queryOf grown _).bind fun _ => .refl _).bind fun _ => .refl _
    · exact .refl _
  | with_ | withOnly =>
    unfold perform
    dsimp only
    split
    · exact ((within_givenPaths grown _).bind fun _ => .refl _).bind fun _ => .refl _
    · exact .refl _
  | withWhereHas =>
    unfold perform
    dsimp only
    split
    · exact ((within_whereHas grown _ _ _ _ _).bind fun _ => .refl _).bind fun _ => .refl _
    · exact .refl _
  | withCount =>
    unfold perform
    dsimp only
    split
    · refine Within.bind ((within_opened grown _).bind fun _ => ?_) fun _ => .refl _
      exact within_withCount grown _
    · exact .refl _
  | whereHas | whereRelation =>
    unfold perform
    dsimp only
    split
    · exact (within_whereHas grown _ _ _ _ _).bind fun _ => .refl _
    · exact .refl _
  | has =>
    unfold perform
    dsimp only
    split
    · exact (within_has grown _ _ _ _).bind fun _ => .refl _
    · exact .refl _
  | doesntHave =>
    unfold perform
    dsimp only
    split
    · exact (within_doesntHave grown _ _ _).bind fun _ => .refl _
    · exact .refl _
  | whereHasMorph =>
    unfold perform
    dsimp only
    split
    · exact (within_whereHasMorph grown _ _ _ _).bind fun _ => .refl _
    · exact .refl _
  | when =>
    unfold perform
    dsimp only
    split
    · refine Within.bind ?_ fun _ => .refl _
      split
      · exact (within_refine grown _).discard
      · exact within_refineIfGiven grown _
    · exact .refl _
  | tap =>
    unfold perform
    dsimp only
    split
    · exact (within_refine grown _).discard.bind fun _ => .refl _
    · exact .refl _
  | scope =>
    unfold perform
    dsimp only
    split
    · exact within_scope grown _ _
    · exact .refl _
  | _ => exact .refl _

theorem within_call (c : Call) : Within (call env inner c) (call env outer c) := by
  refine (within_settleItems grown c.args).bind fun args => ?_
  refine (within_settleNamed grown c.named).bind fun named => ?_
  split
  · exact .throw
  · exact Within.after fun bound => within_perform grown _ _

end

/-- A call that ends well ends the same way where calls may nest deeper. -/
theorem within_callUpTo_succ (env : Env) (depth : Nat) :
    Grown (callUpTo env depth) (callUpTo env (depth + 1)) := by
  induction depth with
  | zero => exact fun c => .throw
  | succ depth ih => exact fun c => within_call ih c

theorem within_callUpTo (env : Env) {depth more : Nat} (h : depth ≤ more) :
    Grown (callUpTo env depth) (callUpTo env more) := by
  induction h with
  | refl => exact fun c => .refl _
  | step _ ih => exact fun c => (ih c).trans (within_callUpTo_succ env _ c)

end Build

end Relata
