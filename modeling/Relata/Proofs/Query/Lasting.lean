import Relata.Proofs.Query.Asked
import Relata.Proofs.Query.Leftover

/-!
What outlasts every builder call. Some things hold of a query whatever becomes of its columns and the
like, whatever conditions are put behind those that it has, and whatever it is asked to load or not to load.
Main statement: of these, what holds of a query holds of whatever a call leaves of it and of another query
that the call answers. So it is enough to look at what the paths that are asked for do, at the source that
is read, and at the first conditions.
-/

namespace Relata

open Sql (Select)

/-- What the query that is answered, if another one is, is said to be. -/
def Answer.Of (I : Query → Prop) (answer : Answer) : Prop := ∀ q, answer = .other q → I q

theorem Answer.of_self {I : Query → Prop} : Answer.self.Of I := fun _ absurd => by cases absurd

theorem Answer.of_value {I : Query → Prop} (v : Value) : (Answer.value v).Of I :=
  fun _ absurd => by cases absurd

/-- A select that reads the same source and whose conditions begin with those of the other one. -/
structure Sql.Select.Continues (q s : Select) : Prop where
  source : s.source = q.source
  conditions : q.conditions <+: s.conditions

/-- What no builder step can undo: it depends neither on the branches nor on the select besides its source
and what its conditions begin with, and is kept where paths are asked for and cancelled. -/
structure Query.Lasting (I : Query → Prop) : Prop where
  select : ∀ (q : Query) (s : Select), q.select.Continues s → I q → I { q with select := s }
  branches : ∀ (q : Query) (branches : List (Bool × Query)), I q → I { q with branches := branches }
  request : ∀ (path : Value) (columns : List Value) (callback : Value),
    (∀ s, path = .text s → ':' ∉ s.toList) →
    Build.Keeps I (Build.request path columns callback) fun _ => True
  anew : ∀ q : Query, I q → I { q with loads := .empty }
  remove : ∀ (q : Query) (removed : List Value), I q → I { q with loads := q.loads.remove removed }

namespace Build

/-- A step that only reads keeps everything. -/
theorem Reads.keeps {α : Type} {I : Query → Prop} {step : Build α} (h : Reads step) :
    Keeps I step fun _ => True :=
  fun _ kept _ _ ran => ⟨h.eq_of_ok ran ▸ kept, trivial⟩

/-- A step that fails leaves a query with `I`. -/
def Spares {α : Type} (I : Query → Prop) (step : Build α) : Prop :=
  ∀ q, I q → ∀ e after, step q = .error e after → I after

theorem Reads.spares {α : Type} {I : Query → Prop} {step : Build α} (h : Reads step) : Spares I step :=
  fun _ kept _ _ failed => h.eq_of_error failed ▸ kept

theorem Spares.bind {α β : Type} {I : Query → Prop} {P : α → Prop} {x : Build α} {f : α → Build β}
    (hx : Spares I x) (kept : Keeps I x P) (hf : ∀ a, P a → Spares I (f a)) : Spares I (x >>= f) := by
  intro q own e after failed
  rcases error_of_bind failed with first | ⟨a, between, ran, rest⟩
  · exact hx q own e after first
  · obtain ⟨own, answered⟩ := kept q own a between ran
    exact hf a answered between own e after rest

end Build

namespace Query.Lasting

open Build

variable {I : Query → Prop} {env : Env} {inner : Caller}

theorem keeps_done {step : Build Unit} (h : Keeps I step fun _ => True) :
    Keeps I (done step) (Answer.Of I) :=
  h.seq (.pure Answer.of_self)

section Calls

variable (inside : ∀ c, Keeps I (inner c) (Answer.Of I))
include inside

/-- A call is made on the query that was answered last. -/
theorem keeps_callOn {answer : Answer} (own : answer.Of I) (c : Call) :
    Keeps I (callOn inner answer c) (Answer.Of I) := by
  cases answer with
  | self => exact inside c
  | other q =>
    refine Keeps.bind (.on (own q rfl) (inside c)) fun r => ?_
    rintro ⟨answered, after⟩
    split
    · refine .pure fun q' same => ?_
      cases same
      exact after
    · exact .pure answered
  | value v => exact .throw

theorem keeps_chain (calls : List Call) : Keeps I (chain inner calls) (Answer.Of I) :=
  .foldlM Answer.of_self fun _ own c _ => keeps_callOn inside own c

/-- A call that fails leaves what the calls before it have left, or what it leaves itself. -/
theorem spares_chain (spares : ∀ c, Spares I (inner c)) (calls : List Call) :
    Spares I (chain inner calls) := by
  have from_ : ∀ (calls : List Call) (answer : Answer), answer.Of I →
      Spares I (calls.foldlM (callOn inner) answer) := by
    intro calls
    induction calls with
    | nil => exact fun _ _ => Reads.pure.spares
    | cons c rest ih =>
      intro answer own
      rw [List.foldlM_cons]
      refine Spares.bind ?_ (keeps_callOn inside own c) ih
      cases answer with
      | self => exact spares c
      | other q => exact steady_answerOn.reads.spares
      | value v => exact Reads.throw.spares
  exact from_ calls .self Answer.of_self

theorem keeps_refine (callback : Value) : Keeps I (refine inner callback) (Answer.Of I) := by
  unfold refine
  split
  · refine (keeps_chain inside _).bind fun answer own => .pure ?_
    split
    · exact own
    · exact Answer.of_value _
  · exact .throw

theorem keeps_refineIfGiven (callback : Value) :
    Keeps I (refineIfGiven inner callback) fun _ => True := by
  unfold refineIfGiven
  split
  · exact .pure trivial
  · exact (keeps_refine inside callback).discard

theorem keeps_scope (name : Value) (args : List Value) :
    Keeps I (scope env inner name args) (Answer.Of I) := by
  refine reads_model.keeps.bind fun m _ => ?_
  split
  · exact .throw
  · refine (keeps_chain inside _).bind fun answer own => .pure ?_
    split
    · intro q same
      refine own q ?_
      unfold Answer.orSelf at same
      split at same
      · cases same
      · exact same
    · exact Answer.of_self

end Calls

variable (lasting : Lasting I)
include lasting

theorem keeps_modifySelect {f : Select → Select}
    (h : ∀ s, (f s).source = s.source ∧ (f s).conditions = s.conditions) :
    Keeps I (modifySelect f) fun _ => True :=
  .changeSelect fun q kept =>
    lasting.select q _ ⟨(h q.select).1, (h q.select).2 ▸ List.prefix_rfl⟩ kept

theorem keeps_addTo (target : Target) (c : Sql.Clause) : Keeps I (addTo target c) fun _ => True := by
  cases target with
  | conditions => exact .changeSelect fun q => lasting.select q _ ⟨rfl, List.prefix_append _ _⟩
  | having => exact lasting.keeps_modifySelect fun _ => ⟨rfl, rfl⟩

theorem keeps_addFragment (junction : Sql.Junction) (f : Sql.Fragment) (context : String) :
    Keeps I (addFragment junction f context) fun _ => True :=
  (Keeps.ofExcept fun _ _ => trivial).bind fun _ _ => lasting.keeps_addTo _ _

theorem keeps_addRaw (target : Target) (junction : Sql.Junction) (text bindings : Value)
    (context : String) : Keeps I (addRaw target junction text bindings context) fun _ => True :=
  steady_bindingsOf.keeps.bind fun _ _ =>
    (Keeps.ofExcept fun _ _ => trivial).bind fun _ _ => lasting.keeps_addTo _ _

theorem keeps_compareOrGroup (target : Target) (junction : Sql.Junction) (column : Value)
    (operator value : Option Value) :
    Keeps I (compareOrGroup inner target junction column operator value) fun _ => True := by
  unfold compareOrGroup
  split
  · exact reads_group.keeps.bind fun _ _ => lasting.keeps_addTo _ _
  · exact steady_comparison.keeps.bind fun _ _ => lasting.keeps_addTo _ _

theorem keeps_compare (junction : Sql.Junction) (column : Value) (operator value : Option Value) :
    Keeps I (do addCondition (← comparison junction column operator value)) fun _ => True :=
  steady_comparison.keeps.bind fun _ _ => lasting.keeps_addTo _ _

theorem keeps_whereNot (column : Value) (operator value : Option Value) :
    Keeps I (whereNot inner column operator value) fun _ => True := by
  unfold whereNot
  split
  · exact reads_group.keeps.bind fun _ _ => lasting.keeps_addTo _ _
  · split
    · split
      · exact lasting.keeps_compare _ _ _ _
      · exact lasting.keeps_compare _ _ _ _
    · split
      · exact lasting.keeps_compare _ _ _ _
      · exact .throw

theorem keeps_whereIn (junction : Sql.Junction) (negated : Bool) (column values : Value) :
    Keeps I (whereIn junction negated column values) fun _ => True :=
  steady_itemsOf.keeps.bind fun _ _ => steady_checkNames.keeps.seq (lasting.keeps_addTo _ _)

theorem keeps_whereNull (junction : Sql.Junction) (negated : Bool) (column : Value) :
    Keeps I (whereNull junction negated column) fun _ => True :=
  steady_checkNames.keeps.seq (lasting.keeps_addTo _ _)

theorem keeps_whereBetween (junction : Sql.Junction) (negated : Bool) (column values : Value) :
    Keeps I (whereBetween junction negated column values) fun _ => True := by
  refine steady_itemsOf.keeps.bind fun _ _ => ?_
  split
  · exact steady_checkNames.keeps.seq (lasting.keeps_addTo _ _)
  · exact .throw

theorem keeps_whereEach (every : Bool) (columns operator value : Value) :
    Keeps I (whereEach every columns operator value) fun _ => True := by
  refine steady_itemsOf.keeps.bind fun _ _ => ?_
  refine (Keeps.mapM (R := fun _ => True) fun _ _ => steady_checkNames.keeps.seq (.pure trivial)).bind ?_
  exact fun _ _ => lasting.keeps_addTo _ _

theorem keeps_join (kind : Sql.JoinKind) (table first operator second : Value) :
    Keeps I (join kind table first operator second) fun _ => True :=
  (Keeps.ofExcept fun _ _ => trivial).bind fun _ _ => lasting.keeps_modifySelect fun _ => ⟨rfl, rfl⟩

theorem keeps_selectRaw (text bindings : Value) : Keeps I (selectRaw text bindings) fun _ => True := by
  refine Keeps.seq (.ofExcept (P := fun _ => True) fun _ _ => trivial) ?_
  refine Keeps.seq (lasting.keeps_modifySelect fun s => ?_) ?_
  · exact ⟨rfl, rfl⟩
  · exact steady_bindingsOf.keeps.bind fun _ _ => lasting.keeps_modifySelect fun s => by exact ⟨rfl, rfl⟩

theorem keeps_orderBy (column direction : Value) : Keeps I (orderBy column direction) fun _ => True := by
  unfold orderBy
  split
  · dsimp only
    split
    · exact .failed
    · exact steady_checkNames.keeps.seq (lasting.keeps_modifySelect fun s => by exact ⟨rfl, rfl⟩)
  · exact .throw

theorem keeps_reorder (column direction : Value) : Keeps I (reorder column direction) fun _ => True := by
  refine (lasting.keeps_modifySelect fun s => by exact ⟨rfl, rfl⟩).seq ?_
  split
  · exact lasting.keeps_orderBy _ _
  · exact .pure trivial

theorem keeps_setTrashed (mode : Sql.Trashed) (method : String) :
    Keeps I (setTrashed mode method) fun _ => True := by
  refine Keeps.get.bind fun q _ => ?_
  dsimp only
  split
  · exact .failed
  · exact lasting.keeps_modifySelect fun s => by exact ⟨rfl, rfl⟩

theorem keeps_setPivotSource (table label : Value) :
    Keeps I (setPivotSource table label) fun _ => True := by
  refine Keeps.get.bind fun q _ => ?_
  split
  · exact steady_checkNames.keeps.seq (lasting.keeps_modifySelect fun _ => ⟨rfl, rfl⟩)
  · exact .pure trivial

theorem keeps_withPivot (columns : List Value) : Keeps I (withPivot columns) fun _ => True := by
  refine .forM fun column _ => Keeps.get.bind fun q _ => ?_
  split
  · exact .pure trivial
  · split
    · unfold selectPivot
      exact lasting.keeps_modifySelect fun s => by exact ⟨rfl, rfl⟩
    · exact .pure trivial

theorem keeps_union (all : Bool) (other : Value) : Keeps I (union env inner all other) fun _ => True :=
  steady_queryOf.keeps.bind fun _ _ => .change fun q kept => lasting.branches q _ kept

theorem keeps_with_ (relations callback : Value) : Keeps I (with_ relations callback) fun _ => True :=
  keeps_with_of_request lasting.request _ _

theorem keeps_without (values : List Value) : Keeps I (without values) fun _ => True :=
  (Keeps.forM fun _ _ => steady_checkKey.keeps).seq <| Keeps.get.bind fun _ _ =>
    (Keeps.forM fun _ _ => steady_checkKey.keeps).seq (.changeLoads fun q kept => lasting.remove q _ kept)

theorem keeps_withOnly (relations : Value) : Keeps I (withOnly relations) fun _ => True :=
  (Keeps.changeLoads lasting.anew).seq (lasting.keeps_with_ relations .null)

theorem keeps_whereHas (junction : Sql.Junction) (relation callback operator count : Value) :
    Keeps I (whereHas env inner junction relation callback operator count) fun _ => True := by
  unfold whereHas
  split
  · exact reads_existsQuery.keeps.bind fun _ _ => lasting.keeps_addFragment _ _ _
  · exact reads_countQuery.keeps.bind fun _ _ => lasting.keeps_addFragment _ _ _

theorem keeps_has (junction : Sql.Junction) (relation operator count : Value) :
    Keeps I (has env inner junction relation operator count) fun _ => True := by
  unfold has
  split
  · exact lasting.keeps_whereHas _ _ _ _ _
  · exact lasting.keeps_whereHas _ _ _ _ _

theorem keeps_withCount (relations : Value) : Keeps I (withCount env inner relations) fun _ => True :=
  steady_counted.keeps.bind fun _ _ => .forM fun _ _ =>
    reads_countQuery.keeps.bind fun _ _ => lasting.keeps_selectRaw _ _

theorem keeps_whereOwned (several : Bool) (items : List Value) (relation : Value) :
    Keeps I (whereOwned env several items relation) fun _ => True := by
  refine reads_require.keeps.bind fun d _ => ?_
  dsimp only
  split
  · exact .failed
  · refine (Keeps.mapM (R := fun _ => True) fun _ _ => steady_attributeOf.keeps).bind fun keys _ => ?_
    split
    · exact lasting.keeps_addRaw _ _ _ _ _
    · split
      · exact lasting.keeps_whereIn _ _ _ _
      · exact lasting.keeps_compare _ _ _ _

theorem keeps_whereBelongsTo (related relation : Value) :
    Keeps I (whereBelongsTo env related relation) fun _ => True := by
  unfold whereBelongsTo
  dsimp only
  split
  · exact lasting.keeps_addRaw _ _ _ _ _
  · split
    · exact (reads_inferOwner.keeps.map (R := fun _ => True) fun _ _ => trivial).bind fun _ _ =>
        lasting.keeps_whereOwned _ _ _
    · exact lasting.keeps_whereOwned _ _ _

theorem keeps_whereHasMorph (junction : Sql.Junction) (relation types callback : Value) :
    Keeps I (whereHasMorph env inner junction relation types callback) fun _ => True :=
  reads_requireMorphTo.keeps.bind fun _ _ => Keeps.get.bind fun _ _ =>
    (Keeps.mapM (R := fun _ => True) fun _ _ => steady_targetOfType.keeps).bind fun _ _ =>
      lasting.keeps_addFragment _ _ _

theorem keeps_whereMorphedTo (relation target : Value) :
    Keeps I (whereMorphedTo env relation target) fun _ => True :=
  reads_requireMorphTo.keeps.bind fun _ _ => steady_comparison.keeps.bind fun _ _ =>
    (lasting.keeps_addTo _ _).seq <| steady_attributeOf.keeps.bind fun _ _ => lasting.keeps_compare _ _ _ _

theorem keeps_ofMany (column aggregate : Value) : Keeps I (ofMany column aggregate) fun _ => True := by
  rw [ofMany_eq]
  refine (Keeps.ofExcept fun _ _ => trivial).bind fun extremum _ => ?_
  refine Keeps.get.bind fun _ _ => (Keeps.ofExcept fun _ _ => trivial).bind fun _ _ => ?_
  refine Keeps.seq (lasting.keeps_addFragment _ _ _) (Keeps.seq (lasting.keeps_orderBy _ _) ?_)
  exact lasting.keeps_modifySelect fun s => by exact ⟨rfl, rfl⟩

/-- What a method leaves of a query, and what it answers, is what the query was. -/
theorem keeps_perform (inside : ∀ c, Keeps I (inner c) (Answer.Of I)) (m : Method)
    (args : List (Option Value)) : Keeps I (perform env inner m args) (Answer.Of I) := by
  have checked {context : String} : Keeps I (checkedStatement context) fun _ => True :=
    reads_checkedStatement.keeps
  unfold perform
  cases m with
  | table | distinct | randomOrder | limit | offset | pivotAlias =>
    dsimp only
    split
    · exact keeps_done (lasting.keeps_modifySelect fun s => by exact ⟨rfl, rfl⟩)
    · exact .throw
  | select =>
    unfold Build.select
    exact keeps_done (lasting.keeps_modifySelect fun s => by exact ⟨rfl, rfl⟩)
  | addSelect | groupBy => exact keeps_done (lasting.keeps_modifySelect fun s => by exact ⟨rfl, rfl⟩)
  | selectRaw =>
    dsimp only
    split
    · exact keeps_done (steady_opened.keeps.bind fun _ _ =>
        steady_givenBindings.keeps.bind fun _ _ => lasting.keeps_selectRaw _ _)
    · exact .throw
  | join =>
    dsimp only
    split
    · exact keeps_done (lasting.keeps_join _ _ _ _ _)
    · exact keeps_done (lasting.keeps_join _ _ _ _ _)
    · exact .throw
  | where_ | whereLike | wherePart | having =>
    dsimp only
    split
    · exact keeps_done (lasting.keeps_compareOrGroup _ _ _ _ _)
    · exact .throw
  | whereNot =>
    dsimp only
    split
    · exact keeps_done (lasting.keeps_whereNot _ _ _)
    · exact .throw
  | whereIn =>
    dsimp only
    split
    · exact keeps_done (steady_opened.keeps.bind fun _ _ => lasting.keeps_whereIn _ _ _ _)
    · exact .throw
  | whereNull =>
    dsimp only
    split
    · exact keeps_done (lasting.keeps_whereNull _ _ _)
    · exact .throw
  | whereBetween =>
    dsimp only
    split
    · exact keeps_done (steady_opened.keeps.bind fun _ _ => lasting.keeps_whereBetween _ _ _ _)
    · exact .throw
  | whereRaw | havingRaw =>
    dsimp only
    split
    · exact keeps_done (steady_givenBindings.keeps.bind fun _ _ => lasting.keeps_addRaw _ _ _ _ _)
    · exact .throw
  | whereColumn =>
    dsimp only
    split
    · exact keeps_done (lasting.keeps_addFragment _ _ _)
    · exact .throw
  | whereEach =>
    dsimp only
    split
    · exact keeps_done (steady_opened.keeps.bind fun _ _ => lasting.keeps_whereEach _ _ _ _)
    · exact .throw
  | orderBy | orderByDescending | byAge =>
    dsimp only
    split
    · exact keeps_done (lasting.keeps_orderBy _ _)
    · exact .throw
  | reorder =>
    dsimp only
    split
    · exact keeps_done (lasting.keeps_reorder _ _)
    · exact .throw
  | forPage =>
    dsimp only
    split
    · refine keeps_done ((Keeps.ofExcept fun _ _ => trivial).bind fun _ _ => ?_)
      exact (lasting.keeps_modifySelect fun s => by exact ⟨rfl, rfl⟩).seq
        (lasting.keeps_modifySelect fun s => by exact ⟨rfl, rfl⟩)
    · exact .throw
  | union =>
    dsimp only
    split
    · exact keeps_done (lasting.keeps_union _ _)
    · exact .throw
  | trashed =>
    dsimp only
    split
    · exact keeps_done (lasting.keeps_setTrashed _ _)
    · exact .throw
  | with_ =>
    dsimp only
    split
    · exact keeps_done (steady_givenPaths.keeps.bind fun _ _ => lasting.keeps_with_ _ _)
    · exact .throw
  | without => exact keeps_done (lasting.keeps_without _)
  | withOnly =>
    dsimp only
    split
    · exact keeps_done (steady_givenPaths.keeps.bind fun _ _ => lasting.keeps_withOnly _)
    · exact .throw
  | withWhereHas =>
    dsimp only
    split
    · exact keeps_done ((lasting.keeps_whereHas _ _ _ _ _).seq (lasting.keeps_with_ _ _))
    · exact .throw
  | withCount =>
    dsimp only
    split
    · exact keeps_done (steady_opened.keeps.bind fun _ _ => lasting.keeps_withCount _)
    · exact .throw
  | whereHas | whereRelation =>
    dsimp only
    split
    · exact keeps_done (lasting.keeps_whereHas _ _ _ _ _)
    · exact .throw
  | has =>
    dsimp only
    split
    · exact keeps_done (lasting.keeps_has _ _ _ _)
    · exact .throw
  | doesntHave =>
    dsimp only
    split
    · exact keeps_done (reads_existsQuery.keeps.bind fun _ _ => lasting.keeps_addFragment _ _ _)
    · exact .throw
  | whereBelongsTo =>
    dsimp only
    split
    · exact keeps_done (lasting.keeps_whereBelongsTo _ _)
    · exact .throw
  | whereHasMorph =>
    dsimp only
    split
    · exact keeps_done (lasting.keeps_whereHasMorph _ _ _ _)
    · exact .throw
  | whereMorphedTo =>
    dsimp only
    split
    · exact keeps_done (lasting.keeps_whereMorphedTo _ _)
    · exact .throw
  | ofMany | extremeOfMany =>
    dsimp only
    split
    · exact keeps_done (lasting.keeps_ofMany _ _)
    · exact .throw
  | setPivotSource =>
    dsimp only
    split
    · exact keeps_done (lasting.keeps_setPivotSource _ _)
    · exact .throw
  | withPivot => exact keeps_done (lasting.keeps_withPivot _)
  | when =>
    dsimp only
    split
    · refine keeps_done ?_
      split
      · exact (keeps_refine inside _).discard
      · exact keeps_refineIfGiven inside _
    · exact .throw
  | tap =>
    dsimp only
    split
    · exact keeps_done (keeps_refine inside _).discard
    · exact .throw
  | scope =>
    dsimp only
    split
    · exact keeps_scope inside _ _
    · exact .throw
  | clone =>
    dsimp only
    split
    · refine Keeps.get.bind fun q own => .pure fun q' same => ?_
      cases same
      exact own
    · exact .throw
  | compile =>
    dsimp only
    split
    · exact Keeps.get.bind fun _ _ => (Keeps.ofExcept fun _ _ => trivial).bind fun _ _ =>
        .pure (Answer.of_value _)
    · exact .throw
  | statement | toSql | getBindings | toRawSql =>
    dsimp only
    split
    · exact checked.bind fun _ _ => .pure (Answer.of_value _)
    · exact .throw
  | eagerLoader | running => exact .pure (Answer.of_value _)

/-- What a call leaves and answers, by induction on how deep the calls that it makes nest. -/
theorem keeps_callUpTo (depth : Nat) : ∀ c, Keeps I (callUpTo env depth c) (Answer.Of I) := by
  induction depth with
  | zero => exact fun _ => .throw
  | succ depth ih =>
    intro c
    refine (steady_settleItems c.args).keeps.bind fun args _ => ?_
    refine (steady_settleNamed c.named).keeps.bind fun named _ => ?_
    split
    · exact .throw
    · exact (Keeps.ofExcept fun _ _ => trivial).bind fun bound _ => lasting.keeps_perform ih _ bound

/-- What a call leaves that changes the query too early and fails then. -/
theorem of_leftover (inside : ∀ c, Keeps I (inner c) (Answer.Of I)) (spares : ∀ c, Spares I (inner c))
    {m : Method} {q after : Query} (own : I q) (left : Leftover env inner m q after) : I after := by
  have asked {q after : Query} (own : I q) (asked : AskedFor q after) : I after := by
    obtain ⟨given, between, ran, same | ⟨path, unfit, rfl⟩⟩ := asked
    · exact same ▸ (lasting.keeps_with_ _ _ q own _ _ ran).1
    · have bare : ∀ s, path = .text s → ':' ∉ s.toList := fun s same => by
        subst same
        exact absurd unfit nofun
      exact (lasting.request path [] .null bare _ (lasting.keeps_with_ _ _ q own _ _ ran).1 () _ rfl).1
  cases left with
  | selectRaw | reorder => exact lasting.select q _ ⟨rfl, List.prefix_rfl⟩ own
  | whereMorphedTo | ofMany => exact lasting.select q _ ⟨rfl, List.prefix_append _ _⟩ own
  | with_ left => exact asked own left
  | withOnly left =>
    rcases left with rfl | left
    · exact lasting.anew q own
    · exact asked (lasting.anew q own) left
  | withCount ran => exact (lasting.keeps_withCount _ q own _ _ ran).1
  | handedOver _ failed => exact spares_chain inside spares _ q own _ _ failed

/-- What a call that fails leaves, by induction on how deep the calls that it makes nest. -/
theorem spares_callUpTo (depth : Nat) : ∀ c, Spares I (callUpTo env depth c) := by
  induction depth with
  | zero => exact fun _ => Reads.throw.spares
  | succ depth ih =>
    intro c q own e after failed
    rcases failing_call_leaves failed with same | ⟨m, -, left⟩
    · exact same ▸ own
    · exact lasting.of_leftover (lasting.keeps_callUpTo depth) ih own left

theorem keeps_onlyExtreme (d : Descriptor) (related : Model) (partition : List String) :
    Keeps I (onlyExtreme d related partition) fun _ => True :=
  lasting.keeps_addRaw _ _ _ _ _

theorem keeps_linkKeys (d : Descriptor) (parent related : Model) (keys : List Value) (tagKeys : Bool) :
    Keeps I (linkKeys env d parent related keys tagKeys) fun _ => True := by
  have selects (values : List Value) : Keeps I (Build.select values) fun _ => True := by
    unfold Build.select
    exact lasting.keeps_modifySelect fun s => by exact ⟨rfl, rfl⟩
  have keyed (column : String) : Keeps I (keyIn column keys) fun _ => True :=
    lasting.keeps_whereIn _ _ _ _
  unfold linkKeys
  dsimp only
  split
  case h_1 | h_2 =>
    refine (keyed _).seq ?_
    split
    · exact lasting.keeps_onlyExtreme _ _ _
    · exact .pure trivial
  case h_3 => exact keyed _
  case h_4 | h_5 | h_6 =>
    refine (Keeps.ofExcept fun _ _ => trivial).bind fun _ _ => ?_
    refine (lasting.keeps_whereIn _ _ _ _).seq ((keyed _).seq ?_)
    split
    · exact lasting.keeps_onlyExtreme _ _ _
    · exact .pure trivial
  case h_7 =>
    exact (selects _).seq <| (lasting.keeps_join _ _ _ _ _).seq <| (keyed _).seq <|
      (lasting.keeps_setPivotSource _ _).seq (lasting.keeps_withPivot _)
  case h_8 | h_9 =>
    refine (Keeps.ofExcept fun _ _ => trivial).bind fun _ _ => ?_
    exact (selects _).seq <| (lasting.keeps_join _ _ _ _ _).seq (keyed _)
  case h_10 => exact .throw

theorem keeps_restrictColumns (d : Descriptor) (table : String) (columns : Value) :
    Keeps I (restrictColumns env d table columns) fun _ => True := by
  unfold restrictColumns
  split
  · exact steady_itemsOf.keeps.bind fun _ _ => lasting.keeps_modifySelect fun s => by exact ⟨rfl, rfl⟩
  · exact .pure trivial

/-- What holds of the query for all rows of a model holds of a new query on it. -/
theorem of_query {m : Model} {q : Query} (start : I (.blank m.source .null)) (new : m.query = .ok q) :
    I q := by
  unfold Model.query at new
  dsimp only at new
  split at new
  · obtain rfl := Except.ok.inj new
    exact start
  · obtain ⟨_, run⟩ := ok_of_finish new
    exact (lasting.keeps_with_ _ _ _ start _ _ run).1

/-- The same of a query for related rows. -/
theorem of_relationQuery {d : Descriptor} {parent related : Model} {keys : List Value} {columns : Value}
    {tagKeys : Bool} {q : Query} (start : I (.blank related.source .null))
    (found : env.relatedModel d = .ok related)
    (built : env.relationQuery d parent keys columns tagKeys = .ok q) : I q := by
  unfold Env.relationQuery at built
  dsimp only at built
  split at built
  · cases built
  · obtain ⟨_, same, built⟩ := Relata.ok_of_bind built
    obtain rfl := Except.ok.inj (found.symm.trans same)
    obtain ⟨base, new, finished⟩ := Relata.ok_of_bind built
    obtain ⟨_, run⟩ := ok_of_finish finished
    have chained : Keeps I (discard (env.chain d.constraints)) fun _ => True :=
      (keeps_chain (lasting.keeps_callUpTo callDepth) d.constraints).discard
    have restricted : Keeps I (restrictColumns env d related.table columns) fun _ => True :=
      lasting.keeps_restrictColumns d related.table columns
    have linked : Keeps I (linkKeys env d parent related keys tagKeys) fun _ => True :=
      lasting.keeps_linkKeys d parent related keys tagKeys
    exact ((linked.seq (chained.seq restricted)) base (lasting.of_query start new) _ _ run).1

end Query.Lasting

/-- The queries on a model that can be arrived at: new ones, those for rows of a relation, and whatever a
call leaves of one or answers. A call that fails may leave it changed. -/
inductive Query.Arises (m : Model) : Query → Prop where
  | new {q : Query} (made : m.query = .ok q) : Arises m q
  | related {env : Env} {d : Descriptor} {parent : Model} {keys : List Value} {columns : Value}
      {tagKeys : Bool} {q : Query} (found : env.relatedModel d = .ok m)
      (built : env.relationQuery d parent keys columns tagKeys = .ok q) : Arises m q
  | called {env : Env} {c : Call} {q after : Query} {a : Answer} (before : Arises m q)
      (ran : env.call c q = .ok a after) : Arises m after
  | answered {env : Env} {c : Call} {q other after : Query} (before : Arises m q)
      (ran : env.call c q = .ok (.other other) after) : Arises m other
  | failed {env : Env} {c : Call} {q after : Query} {e : Error} (before : Arises m q)
      (ran : env.call c q = .error e after) : Arises m after

/-- What outlasts the calls and holds of the query for all rows holds of every query that arises. -/
theorem Query.Lasting.of_arises {I : Query → Prop} (lasting : Lasting I) {m : Model} {q : Query}
    (start : I (.blank m.source .null)) (arises : q.Arises m) : I q := by
  induction arises with
  | new made => exact lasting.of_query start made
  | related found built => exact lasting.of_relationQuery start found built
  | called _ ran own => exact (lasting.keeps_callUpTo Build.callDepth _ _ own _ _ ran).1
  | answered _ ran own => exact (lasting.keeps_callUpTo Build.callDepth _ _ own _ _ ran).2 _ rfl
  | failed _ ran own => exact lasting.spares_callUpTo Build.callDepth _ _ own _ _ ran

end Relata
