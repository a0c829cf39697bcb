import Relata.Proofs.Query.Built
import Relata.Proofs.Relation.Resolved

/-!
What a failing builder call leaves of the query. Most calls make every check before they change
anything, so that the query is as it was; seven methods change it first, and what each of them leaves
is told. `Leaves R step` says of a step that, if it fails, the query is as it was or as `R` allows.
-/

namespace Relata.Build

variable {α β : Type}

/-- What fails has failed in its first step or in the rest. -/
theorem error_of_bind {x : Build α} {f : α → Build β} {q after : Query} {e : Error}
    (h : (x >>= f) q = .error e after) :
    x q = .error e after ∨ ∃ a between, x q = .ok a between ∧ f a between = .error e after := by
  change EStateM.bind x f q = .error e after at h
  unfold EStateM.bind at h
  split at h
  · rename_i a between run
    exact .inr ⟨a, between, run, h⟩
  · rename_i run
    cases h
    exact .inl run

/-- The step reads the query and does not change it, whether it ends well or fails. -/
def Reads (step : Build α) : Prop := ∀ q, (∃ a, step q = .ok a q) ∨ ∃ e, step q = .error e q

/-- The step cannot fail. -/
def Sure (step : Build α) : Prop := ∀ q, ∃ a after, step q = .ok a after

/-- Of a query on which the step fails it leaves the query itself or what `R` allows. -/
def Leaves (R : Query → Query → Prop) (step : Build α) : Prop :=
  ∀ q e after, step q = .error e after → after = q ∨ R q after

/-- Nothing but the query itself. -/
def Nothing (_ _ : Query) : Prop := False

namespace Reads

theorem get : Reads (MonadState.get : Build Query) := fun q => .inl ⟨q, rfl⟩

theorem bind {x : Build α} {f : α → Build β} (hx : Reads x) (hf : ∀ a, Reads (f a)) :
    Reads (x >>= f) := by
  intro q
  change (∃ b, EStateM.bind x f q = .ok b q) ∨ ∃ e, EStateM.bind x f q = .error e q
  unfold EStateM.bind
  rcases hx q with ⟨a, run⟩ | ⟨e, run⟩
  · rw [run]
    exact hf a q
  · rw [run]
    exact .inr ⟨e, rfl⟩

end Reads

theorem Steady.reads {step : Build α} (h : Steady step) : Reads step := by
  obtain ⟨result, rfl⟩ := h
  cases result with
  | ok a => exact fun q => .inl ⟨a, rfl⟩
  | error e => exact fun q => .inr ⟨e, rfl⟩

namespace Reads

theorem pure {a : α} : Reads (Pure.pure a) := Steady.pure.reads

theorem throw {e : Error} : Reads (MonadExcept.throw e : Build α) := Steady.throw.reads

theorem ofExcept {x : Except Error α} : Reads (Build.ofExcept x) := Steady.ofExcept.reads

theorem eq_of_error {step : Build α} {q after : Query} {e : Error} (h : Reads step)
    (failed : step q = .error e after) : after = q := by
  rcases h q with ⟨a, run⟩ | ⟨e, run⟩
  · cases run.symm.trans failed
  · cases run.symm.trans failed
    rfl

theorem eq_of_ok {step : Build α} {q after : Query} {a : α} (h : Reads step)
    (ran : step q = .ok a after) : after = q := by
  rcases h q with ⟨b, run⟩ | ⟨e, run⟩
  · cases run.symm.trans ran
    rfl
  · cases run.symm.trans ran

/-- What follows a failure is not reached. -/
theorem failed {e : Error} {f : α → Build β} : Reads (MonadExcept.throw e >>= f) :=
  fun _ => .inr ⟨e, rfl⟩

theorem filterM {f : α → Build Bool} (h : ∀ a, Reads (f a)) (items : List α) :
    Reads (items.filterM f) := by
  have kept : ∀ rest found : List α, Reads (rest.filterAuxM f found) := by
    intro rest
    induction rest with
    | nil => exact fun _ => pure
    | cons a rest ih => exact fun found => (h a).bind fun b => ih _
  exact (kept items []).bind fun _ => pure

end Reads

namespace Sure

theorem change {f : Query → Query} : Sure (modify f : Build Unit) := fun q => ⟨⟨⟩, f q, rfl⟩

theorem changeSelect {f : Sql.Select → Sql.Select} : Sure (modifySelect f) := change

theorem changeLoads {f : LoadRequest → LoadRequest} : Sure (modifyLoads f) := change

theorem pure {a : α} : Sure (Pure.pure a) := fun q => ⟨a, q, rfl⟩

theorem bind {x : Build α} {f : α → Build β} (hx : Sure x) (hf : ∀ a, Sure (f a)) :
    Sure (x >>= f) := by
  intro q
  obtain ⟨a, between, run⟩ := hx q
  obtain ⟨b, after, rest⟩ := hf a between
  exact ⟨b, after, bind_eq_ok run rest⟩

theorem forM {f : α → Build PUnit} (h : ∀ a, Sure (f a)) (items : List α) :
    Sure (items.forM f) := by
  induction items with
  | nil => exact pure
  | cons a rest ih => exact (h a).bind fun _ => ih

end Sure

namespace Leaves

variable {R S : Query → Query → Prop} {x : Build α} {f : α → Build β}

theorem ofReads (h : Reads x) : Leaves R x := fun _ _ _ failed => .inl (h.eq_of_error failed)

theorem ofSure (h : Sure x) : Leaves R x := by
  intro q e after failed
  obtain ⟨a, after, run⟩ := h q
  cases run.symm.trans failed

theorem throw {e : Error} : Leaves R (MonadExcept.throw e : Build α) := ofReads .throw

/-- What follows a failure is not reached. -/
theorem failed {e : Error} : Leaves R (MonadExcept.throw e >>= f) := ofReads .failed

/-- What is only read before a step leaves nothing more. -/
theorem afterReading (hx : Reads x) (hf : ∀ a, Leaves R (f a)) : Leaves R (x >>= f) := by
  intro q e after failed
  rcases error_of_bind failed with first | ⟨a, between, run, rest⟩
  · exact .inl (hx.eq_of_error first)
  · obtain rfl := hx.eq_of_ok run
    exact hf a between e after rest

/-- What cannot fail after a step leaves nothing more. -/
theorem beforeSure (hx : Leaves R x) (hf : ∀ a, Sure (f a)) : Leaves R (x >>= f) := by
  intro q e after failed
  rcases error_of_bind failed with first | ⟨a, between, run, rest⟩
  · exact hx q e after first
  · obtain ⟨b, end_, sure⟩ := hf a between
    cases sure.symm.trans rest

theorem mono (h : Leaves R x) (weaker : ∀ q after, R q after → S q after) : Leaves S x :=
  fun q e after failed => (h q e after failed).imp_right (weaker q after)

end Leaves

/-- A loop that fails has ended well for some of its items and failed at the next. -/
theorem leaves_forM {R : Query → Query → Prop} {f : α → Build PUnit} (h : ∀ a, Leaves R (f a))
    (items : List α) : Leaves (fun q after => ∃ done between, done <+: items ∧
      done.forM f q = .ok ⟨⟩ between ∧ (after = between ∨ R between after)) (items.forM f) := by
  induction items with
  | nil => exact .ofReads .pure
  | cons a rest ih =>
    intro q e after failed
    rcases error_of_bind failed with first | ⟨_, between, run, later⟩
    · exact .inr ⟨[], q, List.nil_prefix, rfl, h a q e after first⟩
    · refine .inr ?_
      rcases ih between e after later with same | ⟨done, last, part, ran, left⟩
      · exact ⟨[a], between, by simp, bind_eq_ok run rfl, .inl same⟩
      · exact ⟨a :: done, last, List.cons_prefix_cons.mpr ⟨rfl, part⟩, bind_eq_ok run ran, left⟩

section Steps

open Sql (Clause Junction)

variable {env : Env} {inner : Caller} {R : Query → Query → Prop}

theorem reads_model : Reads (model env) := by
  refine Reads.get.bind fun q => ?_
  split
  · exact .pure
  · exact .throw

theorem reads_require {relation : Value} : Reads (require env relation) :=
  reads_model.bind fun _ => .ofExcept

theorem reads_link {d : Descriptor} {related : Model} {parent : String} :
    Reads (link env d related parent) := by
  unfold link
  split
  case h_4 | h_5 | h_6 => exact reads_model.bind fun _ => Reads.ofExcept.bind fun _ => .pure
  case h_8 | h_9 => exact Reads.ofExcept.bind fun _ => .pure
  case h_10 => exact .throw
  all_goals exact .pure

theorem reads_relatedRows {relation callback : Value} :
    Reads (relatedRows env inner relation callback) := by
  refine reads_require.bind fun d => ?_
  dsimp only
  split
  · exact .failed
  · refine Reads.get.bind fun q => Reads.ofExcept.bind fun related => ?_
    refine Reads.ofExcept.bind fun base => Steady.on.reads.bind fun sub => ?_
    exact reads_link.bind fun _ => .pure

theorem reads_existsQuery {relation callback : Value} :
    Reads (existsQuery env inner relation callback) :=
  reads_relatedRows.bind fun _ => .pure

theorem reads_countQuery {relation callback : Value} :
    Reads (countQuery env inner relation callback) :=
  reads_relatedRows.bind fun _ => .pure

theorem reads_group {target : Target} {junction : Junction} {negated : Bool} {callback : Value} :
    Reads (group inner target junction negated callback) := by
  refine Reads.get.bind fun q => ?_
  dsimp only
  split
  · exact .failed
  · exact Steady.on.reads.bind fun _ => .pure

theorem reads_inferOwner {owner : Value} : Reads (inferOwner env owner) := by
  refine reads_model.bind fun self => Reads.bind (.filterM (fun name => ?_) _) fun names => ?_
  · refine reads_require.bind fun d => ?_
    split
    · exact .pure
    · exact Reads.ofExcept.bind fun _ => .pure
  · split
    · exact .pure
    · exact .throw

theorem reads_requireMorphTo {relation : Value} : Reads (requireMorphTo env relation) := by
  refine reads_require.bind fun d => ?_
  dsimp only
  split
  · exact .failed
  · exact .pure

theorem reads_checkedStatement {context : String} : Reads (checkedStatement context) :=
  Reads.get.bind fun _ => .ofExcept

theorem sure_addTo {target : Target} {c : Clause} : Sure (addTo target c) := .changeSelect

theorem leaves_addTo {target : Target} {step : Build Clause} (h : Reads step) :
    Leaves R (step >>= addTo target) :=
  .afterReading h fun _ => .ofSure sure_addTo

theorem leaves_addRaw {target : Target} {junction : Junction} {text bindings : Value}
    {context : String} : Leaves R (addRaw target junction text bindings context) :=
  .afterReading steady_bindingsOf.reads fun _ => leaves_addTo .ofExcept

theorem leaves_addFragment {junction : Junction} {f : Sql.Fragment} {context : String} :
    Leaves R (addFragment junction f context) :=
  leaves_addTo .ofExcept

/-- Names are checked before the change. -/
theorem leaves_checked {issues : List Issue} {change : Build Unit} (h : Sure change) :
    Leaves R (do checkNames issues; change) :=
  .afterReading steady_checkNames.reads fun _ => .ofSure h

theorem leaves_whereIn {junction : Junction} {negated : Bool} {column values : Value} :
    Leaves R (whereIn junction negated column values) :=
  .afterReading steady_itemsOf.reads fun _ => leaves_checked sure_addTo

theorem leaves_whereNull {junction : Junction} {negated : Bool} {column : Value} :
    Leaves R (whereNull junction negated column) :=
  leaves_checked sure_addTo

theorem leaves_whereBetween {junction : Junction} {negated : Bool} {column values : Value} :
    Leaves R (whereBetween junction negated column values) := by
  refine .afterReading steady_itemsOf.reads fun items => ?_
  split
  · exact leaves_checked sure_addTo
  · exact .throw

theorem leaves_whereEach {every : Bool} {columns operator value : Value} :
    Leaves R (whereEach every columns operator value) := by
  refine .afterReading steady_itemsOf.reads fun items => ?_
  refine .afterReading (Steady.mapM fun column => ?_).reads fun children => .ofSure sure_addTo
  exact steady_checkNames.bind fun _ => .pure

theorem leaves_compareOrGroup {target : Target} {junction : Junction} {column : Value}
    {operator value : Option Value} :
    Leaves R (compareOrGroup inner target junction column operator value) := by
  unfold compareOrGroup
  split
  · exact leaves_addTo reads_group
  · exact leaves_addTo steady_comparison.reads

theorem leaves_whereNot {column : Value} {operator value : Option Value} :
    Leaves R (whereNot inner column operator value) := by
  unfold whereNot
  split
  · exact leaves_addTo reads_group
  · split
    · split
      · exact leaves_addTo steady_comparison.reads
      · exact leaves_addTo steady_comparison.reads
    · split
      · exact leaves_addTo steady_comparison.reads
      · exact .throw

theorem leaves_orderBy {column direction : Value} : Leaves R (orderBy column direction) := by
  unfold orderBy
  split
  · dsimp only
    split
    · exact .failed
    · exact leaves_checked .changeSelect
  · exact .throw

theorem leaves_forPage {page size : Value} : Leaves R (forPage page size) :=
  .afterReading .ofExcept fun _ => .ofSure (Sure.changeSelect.bind fun _ => .changeSelect)

theorem leaves_setTrashed {mode : Sql.Trashed} {method : String} :
    Leaves R (setTrashed mode method) := by
  refine .afterReading .get fun q => ?_
  dsimp only
  split
  · exact .failed
  · exact .ofSure .changeSelect

theorem leaves_without {values : List Value} : Leaves R (without values) := by
  have checked (items : List Value) : Reads (items.forM checkKey) :=
    (Steady.forM fun _ => steady_checkKey).reads
  exact .afterReading (checked _) fun _ => .afterReading .get fun q =>
    .afterReading (checked _) fun _ => .ofSure .changeLoads

theorem leaves_setPivotSource {table label : Value} : Leaves R (setPivotSource table label) := by
  refine .afterReading .get fun q => ?_
  split
  · exact leaves_checked .changeSelect
  · exact .ofReads .pure

theorem sure_selectPivot {pivot : Sql.Pivot} {column : Value} : Sure (selectPivot pivot column) := by
  unfold selectPivot
  exact .changeSelect

theorem sure_withPivot {columns : List Value} : Sure (withPivot columns) := by
  refine .forM (fun column => Sure.bind (fun q => ⟨q, q, rfl⟩) fun q => ?_) columns
  split
  · exact .pure
  · split
    · exact sure_selectPivot
    · exact .pure

theorem sure_select {values : List Value} : Sure (select values) := by
  unfold select
  exact .changeSelect

theorem leaves_join {kind : Sql.JoinKind} {table first operator second : Value} :
    Leaves R (join kind table first operator second) :=
  .afterReading .ofExcept fun _ => .ofSure .changeSelect

theorem leaves_whereHas {junction : Junction} {relation callback operator count : Value} :
    Leaves R (whereHas env inner junction relation callback operator count) := by
  unfold whereHas
  dsimp only
  split
  · exact .afterReading reads_existsQuery fun _ => leaves_addFragment
  · exact .afterReading reads_countQuery fun _ => leaves_addFragment

theorem leaves_has {junction : Junction} {relation operator count : Value} :
    Leaves R (has env inner junction relation operator count) := by
  unfold has
  split
  · exact leaves_whereHas
  · exact leaves_whereHas

theorem leaves_doesntHave {junction : Junction} {relation callback : Value} :
    Leaves R (doesntHave env inner junction relation callback) :=
  .afterReading reads_existsQuery fun _ => leaves_addFragment

theorem leaves_whereOwned {several : Bool} {items : List Value} {relation : Value} :
    Leaves R (whereOwned env several items relation) := by
  refine .afterReading reads_require fun d => ?_
  dsimp only
  split
  · exact .failed
  · refine .afterReading (Steady.mapM fun _ => steady_attributeOf).reads fun keys => ?_
    split
    · exact leaves_addRaw
    · split
      · exact leaves_whereIn
      · exact leaves_addTo steady_comparison.reads

theorem leaves_whereBelongsTo {related relation : Value} :
    Leaves R (whereBelongsTo env related relation) := by
  unfold whereBelongsTo
  dsimp only
  split
  · exact leaves_addRaw
  · split
    · exact .afterReading (reads_inferOwner.bind fun _ => .pure) fun _ => leaves_whereOwned
    · exact leaves_whereOwned

theorem leaves_whereHasMorph {junction : Junction} {relation types callback : Value} :
    Leaves R (whereHasMorph env inner junction relation types callback) :=
  .afterReading reads_requireMorphTo fun _ => .afterReading .get fun _ =>
    .afterReading (Steady.mapM fun _ => steady_targetOfType).reads fun _ => leaves_addFragment

/-- After a change that cannot fail what is left is what is left of the changed query. -/
theorem leaves_afterChange {f : Query → Query} {step : Build Unit} (h : Leaves R step) :
    Leaves (fun q after => after = f q ∨ R (f q) after) (do modify f; step) := by
  intro q e after failed
  rcases error_of_bind failed with first | ⟨_, between, run, rest⟩
  · cases first
  · cases run
    exact .inr (h _ e after rest)

/-- An expression is selected before its values are looked at. -/
theorem leaves_selectRaw {text bindings : Value} :
    Leaves (fun q after => checkExpression text = .ok () ∧
      after = { q with select.columns := q.select.columns ++ [text] })
      (selectRaw text bindings) := by
  intro q e after failed
  rcases error_of_bind failed with first | ⟨_, between, run, rest⟩
  · exact .inl (Reads.ofExcept.eq_of_error first)
  · obtain ⟨passes, rfl⟩ := ok_of_ofExcept run
    have values : Leaves Nothing (do
        let bindings ← bindingsOf bindings
        modifySelect fun s => { s with bindings := s.bindings ++ bindings }) :=
      .afterReading steady_bindingsOf.reads fun _ => .ofSure .changeSelect
    rcases leaves_afterChange values q e after rest with same | changed | absurd
    · exact .inl same
    · exact .inr ⟨passes, changed⟩
    · exact absurd.elim

/-- The ordering is dropped before the new one is looked at. -/
theorem leaves_reorder {column direction : Value} :
    Leaves (fun q after => after = { q with select.orders := [] }) (reorder column direction) := by
  have ordered : Leaves Nothing (if column.truthy then orderBy column direction else pure ()) := by
    split
    · exact leaves_orderBy
    · exact .ofReads .pure
  exact (leaves_afterChange ordered).mono fun q after h => h.resolve_right id

theorem sure_checkKey {v : Value} (key : v.isKey = true) : Sure (checkKey v) := by
  unfold checkKey
  rw [if_pos key]
  exact .pure

theorem sure_request {path : Value} {columns : List Value} {callback : Value}
    (key : path.isKey = true) : Sure (request path columns callback) := by
  have checked := sure_checkKey key
  refine Sure.changeLoads.bind fun _ => ?_
  dsimp only
  split
  · refine checked.bind fun _ => Sure.changeLoads.bind fun _ => ?_
    split
    · exact checked.bind fun _ => .changeLoads
    · exact .pure
  · split
    · exact checked.bind fun _ => .changeLoads
    · exact .pure

/-- A path is asked for before it is looked at as a key. -/
theorem leaves_request {path : Value} {columns : List Value} {callback : Value} :
    Leaves (fun q after => path.isKey = false ∧ after = { q with loads := q.loads.addPath path })
      (request path columns callback) := by
  cases key : path.isKey with
  | true => exact .ofSure (sure_request key)
  | false =>
    have checked : checkKey path = throw .badType := if_neg (by simp [key])
    unfold request
    rw [checked]
    refine (leaves_afterChange (R := Nothing) ?_).mono fun q after h => ⟨rfl, h.resolve_right id⟩
    dsimp only
    split
    · exact .failed
    · split
      · exact .failed
      · exact .ofReads .pure

theorem leaves_withPath {path callback : Value} :
    Leaves (fun q after => ∃ path : Value, path.isKey = false ∧
      after = { q with loads := q.loads.addPath path }) (withPath path callback) :=
  .afterReading .ofExcept fun _ => leaves_request.mono fun _ _ left => ⟨_, left⟩

theorem leaves_withEntry {path value : Value} :
    Leaves (fun q after => ∃ path : Value, path.isKey = false ∧
      after = { q with loads := q.loads.addPath path }) (withEntry path value) := by
  unfold withEntry
  split
  · exact .afterReading .ofExcept fun _ => leaves_request.mono fun _ _ left => ⟨_, left⟩
  · exact leaves_withPath

/-- What is left of a query that asks for relations until one of them fails: those before it are
asked for, and so is its own path if it is what the path fails to be a key. -/
def AskedFor (q after : Query) : Prop :=
  ∃ given between, with_ given .null q = .ok () between ∧ (after = between ∨
    ∃ path : Value, path.isKey = false ∧
      after = { between with loads := between.loads.addPath path })

theorem sure_with_text {name : String} {callback : Value} :
    Sure (with_ (.text name) callback) := by
  change Sure (request (.text (RelationPath.read name).relation) _ callback)
  exact sure_request rfl

theorem leaves_with_ {relations callback : Value} : Leaves AskedFor (with_ relations callback) := by
  unfold with_
  split
  · exact .ofSure sure_with_text
  · next entries =>
    refine (leaves_forM (fun _ => leaves_withEntry) entries).mono ?_
    rintro q after ⟨done, between, -, ran, left⟩
    exact ⟨.dict done, between, ran, left⟩
  · refine .afterReading steady_itemsOf.reads fun items => ?_
    refine (leaves_forM (fun _ => leaves_withPath) items).mono ?_
    rintro q after ⟨done, between, -, ran, left⟩
    exact ⟨.list done, between, ran, left⟩

theorem leaves_withOnly {relations : Value} :
    Leaves (fun q after => after = { q with loads := .empty } ∨
      AskedFor { q with loads := .empty } after) (withOnly relations) :=
  leaves_afterChange leaves_with_

theorem exists_text_of_whereHas {junction : Junction} {relation callback operator count : Value}
    {q after : Query}
    (ran : whereHas env inner junction relation callback operator count q = .ok () after) :
    ∃ name, relation = .text name := by
  have text_of_require {d : Descriptor} {between : Query}
      (ran : require env relation q = .ok d between) : ∃ name, relation = .text name := by
    obtain ⟨m, _, -, ran⟩ := ok_of_bind ran
    exact Lookup.text_of_require (ok_of_ofExcept ran).1
  unfold whereHas at ran
  dsimp only at ran
  split at ran
  · obtain ⟨_, _, ran, -⟩ := ok_of_bind ran
    obtain ⟨_, _, ran, -⟩ := ok_of_bind ran
    obtain ⟨_, _, ran, -⟩ := ok_of_bind ran
    exact text_of_require ran
  · obtain ⟨_, _, ran, -⟩ := ok_of_bind ran
    obtain ⟨_, _, ran, -⟩ := ok_of_bind ran
    obtain ⟨_, _, ran, -⟩ := ok_of_bind ran
    exact text_of_require ran

/-- A relation that the query filters on can be asked for. -/
theorem leaves_withWhereHas {relation callback : Value} :
    Leaves R (withWhereHas env inner relation callback) := by
  intro q e after failed
  rcases error_of_bind failed with first | ⟨_, between, run, rest⟩
  · exact leaves_whereHas q e after first
  · obtain ⟨name, rfl⟩ := exists_text_of_whereHas run
    have asked : Sure (with_ (.text name) callback) := sure_with_text
    obtain ⟨_, end_, sure⟩ := asked between
    cases sure.symm.trans rest

theorem sure_bindingsOf_list {values : List Value} : Sure (bindingsOf (.list values)) := by
  unfold bindingsOf
  split
  · exact .pure
  · exact .pure

/-- The relations before one that fails are counted. -/
theorem leaves_withCount {relations : Value} :
    Leaves (fun q after => ∃ done, withCount env inner (.dict done) q = .ok () after)
      (withCount env inner relations) := by
  refine .afterReading steady_counted.reads fun items => ?_
  refine (leaves_forM (R := Nothing) (fun entry => ?_) items).mono ?_
  · refine .afterReading reads_countQuery fun count => ?_
    dsimp only
    refine .afterReading .ofExcept fun _ => .ofSure (Sure.changeSelect.bind fun _ => ?_)
    exact sure_bindingsOf_list.bind fun _ => .changeSelect
  · rintro q after ⟨done, between, -, ran, same | absurd⟩
    · exact ⟨done, same ▸ ran⟩
    · exact absurd.elim

/-- The type of the target is asked for before its identifier is looked at. -/
theorem leaves_whereMorphedTo {relation target : Value} :
    Leaves (fun q after => ∃ column tag clause,
      comparison .and (.text column) (some tag) none q = .ok clause q ∧
      after = { q with select.conditions := q.select.conditions ++ [clause] })
      (whereMorphedTo env relation target) := by
  refine .afterReading reads_requireMorphTo fun d => ?_
  intro q e after failed
  rcases error_of_bind failed with first | ⟨clause, between, ran, later⟩
  · exact .inl (steady_comparison.reads.eq_of_error first)
  · obtain rfl := steady_comparison.reads.eq_of_ok ran
    have rest : Leaves Nothing (do
        let id ← attributeOf env target "id"
        addCondition (← comparison .and (.text (Descriptor.written d.idColumn)) (some id) none)) :=
      .afterReading steady_attributeOf.reads fun _ => leaves_addTo steady_comparison.reads
    rcases leaves_afterChange rest between e after later with same | changed | absurd
    · exact .inl same
    · exact .inr ⟨_, _, clause, ran, changed⟩
    · exact absurd.elim

/-- The rows are kept before they are ordered by the column. -/
theorem leaves_keepThenOrder (f : Sql.Fragment) (column direction : Value) :
    Leaves (fun q after => ∃ text values, after = { q with
      select.conditions := q.select.conditions ++ [.leaf .and (.raw text values "where_raw")] })
      (do
        addFragment .and f "where_raw"
        orderBy column direction
        limit (.int 1)) := by
  intro q e after failed
  rcases error_of_bind failed with first | ⟨_, between, ran, later⟩
  · exact .inl ((leaves_addFragment (R := Nothing) q e after first).resolve_right id)
  · obtain ⟨clause, _, checked, added⟩ := ok_of_bind ran
    obtain ⟨made, rfl⟩ := ok_of_ofExcept checked
    obtain ⟨text, -, rfl⟩ := Sql.Clause.raw_eq_ok made
    cases added
    have ordered : Leaves Nothing (do orderBy column direction; limit (.int 1)) :=
      .beforeSure leaves_orderBy fun _ => .changeSelect
    exact .inr ⟨text, f.values, (ordered _ e after later).resolve_right id⟩

theorem leaves_ofMany {column aggregate : Value} :
    Leaves (fun q after => ∃ text values, after = { q with
      select.conditions := q.select.conditions ++ [.leaf .and (.raw text values "where_raw")] })
      (ofMany column aggregate) := by
  rw [ofMany_eq]
  exact .afterReading .ofExcept fun extremum => .afterReading .get fun q =>
    .afterReading .ofExcept fun body => leaves_keepThenOrder _ _ _

theorem leaves_refine {callback : Value} :
    Leaves (fun q after => ∃ calls e, chain inner calls q = .error e after)
      (refine inner callback) := by
  unfold refine
  split
  · next calls answers =>
    intro q e after failed
    rcases error_of_bind failed with first | ⟨_, _, -, rest⟩
    · exact .inr ⟨calls, e, first⟩
    · split at rest
      · cases rest
      · cases rest
  · exact .throw

theorem leaves_scope {name : Value} {args : List Value} :
    Leaves (fun q after => ∃ calls e, chain inner calls q = .error e after)
      (scope env inner name args) := by
  refine .afterReading reads_model fun m => ?_
  split
  · exact .throw
  · intro q e after failed
    rcases error_of_bind failed with first | ⟨_, _, -, rest⟩
    · exact .inr ⟨_, e, first⟩
    · split at rest
      · cases rest
      · cases rest

end Steps

/-- What a failing call of a method can leave besides the query as it was: seven methods change the
query before they have made their last check, and a refinement or a scope that is called with the
query leaves it where its own calls have failed. -/
inductive Leftover (env : Env) (inner : Caller) : Method → Query → Query → Prop
  | selectRaw {q : Query} {text : Value} : checkExpression text = .ok () →
    Leftover env inner .selectRaw q { q with select.columns := q.select.columns ++ [text] }
  | reorder {q : Query} : Leftover env inner .reorder q { q with select.orders := [] }
  | with_ {q after : Query} : AskedFor q after → Leftover env inner .with_ q after
  | withOnly {q after : Query} :
    after = { q with loads := .empty } ∨ AskedFor { q with loads := .empty } after →
    Leftover env inner .withOnly q after
  | withCount {q after : Query} {done : List (Value × Value)} :
    withCount env inner (.dict done) q = .ok () after → Leftover env inner .withCount q after
  | whereMorphedTo {q : Query} {column : String} {tag : Value} {clause : Sql.Clause} :
    comparison .and (.text column) (some tag) none q = .ok clause q →
    Leftover env inner .whereMorphedTo q
      { q with select.conditions := q.select.conditions ++ [clause] }
  | ofMany {m : Method} {q : Query} {text : String} {values : List Value} :
    (m = .ofMany ∨ ∃ extremum, m = .extremeOfMany extremum) → Leftover env inner m q
      { q with
        select.conditions := q.select.conditions ++ [.leaf .and (.raw text values "where_raw")] }
  | handedOver {m : Method} {q after : Query} {calls : List Call} {e : Error} :
    (m = .tap ∨ m = .scope ∨ ∃ expected, m = .when expected) →
    chain inner calls q = .error e after → Leftover env inner m q after

section Calls

variable {env : Env} {inner : Caller} {R : Query → Query → Prop}

theorem leaves_done {step : Build Unit} (h : Leaves R step) : Leaves R (done step) :=
  h.beforeSure fun _ => .pure

/-- A call to a method whose arguments are bound. -/
theorem leaves_perform (m : Method) (args : List (Option Value)) :
    Leaves (Leftover env inner m) (perform env inner m args) := by
  unfold perform
  cases m with
  | table | distinct | randomOrder | limit | offset | pivotAlias =>
    dsimp only
    split
    · exact leaves_done (.ofSure .changeSelect)
    · exact .throw
  | select => exact leaves_done (.ofSure sure_select)
  | addSelect => exact leaves_done (.ofSure .changeSelect)
  | groupBy => exact leaves_done (.ofSure .changeSelect)
  | selectRaw =>
    dsimp only
    split
    · refine leaves_done (.afterReading steady_opened.reads fun _ => ?_)
      refine .afterReading steady_givenBindings.reads fun _ => leaves_selectRaw.mono ?_
      rintro q _ ⟨passes, rfl⟩
      exact .selectRaw passes
    · exact .throw
  | join =>
    dsimp only
    split
    · exact leaves_done leaves_join
    · exact leaves_done leaves_join
    · exact .throw
  | where_ | whereLike | wherePart | having =>
    dsimp only
    split
    · exact leaves_done leaves_compareOrGroup
    · exact .throw
  | whereNot =>
    dsimp only
    split
    · exact leaves_done leaves_whereNot
    · exact .throw
  | whereIn =>
    dsimp only
    split
    · exact leaves_done (.afterReading steady_opened.reads fun _ => leaves_whereIn)
    · exact .throw
  | whereNull =>
    dsimp only
    split
    · exact leaves_done leaves_whereNull
    · exact .throw
  | whereBetween =>
    dsimp only
    split
    · exact leaves_done (.afterReading steady_opened.reads fun _ => leaves_whereBetween)
    · exact .throw
  | whereRaw | havingRaw =>
    dsimp only
    split
    · exact leaves_done (.afterReading steady_givenBindings.reads fun _ => leaves_addRaw)
    · exact .throw
  | whereColumn =>
    dsimp only
    split
    · exact leaves_done leaves_addFragment
    · exact .throw
  | whereEach =>
    dsimp only
    split
    · exact leaves_done (.afterReading steady_opened.reads fun _ => leaves_whereEach)
    · exact .throw
  | orderBy | orderByDescending | byAge =>
    dsimp only
    split
    · exact leaves_done leaves_orderBy
    · exact .throw
  | reorder =>
    dsimp only
    split
    · refine leaves_done (leaves_reorder.mono ?_)
      rintro q _ rfl
      exact .reorder
    · exact .throw
  | forPage =>
    dsimp only
    split
    · exact leaves_done leaves_forPage
    · exact .throw
  | union =>
    dsimp only
    split
    · exact leaves_done (.afterReading steady_queryOf.reads fun _ => .ofSure .change)
    · exact .throw
  | trashed =>
    dsimp only
    split
    · exact leaves_done leaves_setTrashed
    · exact .throw
  | with_ =>
    dsimp only
    split
    · refine leaves_done (.afterReading steady_givenPaths.reads fun _ => ?_)
      exact leaves_with_.mono fun _ _ => .with_
    · exact .throw
  | without => exact leaves_done leaves_without
  | withOnly =>
    dsimp only
    split
    · refine leaves_done (.afterReading steady_givenPaths.reads fun _ => ?_)
      exact leaves_withOnly.mono fun _ _ => .withOnly
    · exact .throw
  | withWhereHas =>
    dsimp only
    split
    · exact leaves_done leaves_withWhereHas
    · exact .throw
  | withCount =>
    dsimp only
    split
    · refine leaves_done (.afterReading steady_opened.reads fun _ => ?_)
      exact leaves_withCount.mono fun _ _ ⟨_, ran⟩ => .withCount ran
    · exact .throw
  | whereHas | whereRelation =>
    dsimp only
    split
    · exact leaves_done leaves_whereHas
    · exact .throw
  | has =>
    dsimp only
    split
    · exact leaves_done leaves_has
    · exact .throw
  | doesntHave =>
    dsimp only
    split
    · exact leaves_done leaves_doesntHave
    · exact .throw
  | whereBelongsTo =>
    dsimp only
    split
    · exact leaves_done leaves_whereBelongsTo
    · exact .throw
  | whereHasMorph =>
    dsimp only
    split
    · exact leaves_done leaves_whereHasMorph
    · exact .throw
  | whereMorphedTo =>
    dsimp only
    split
    · refine leaves_done (leaves_whereMorphedTo.mono ?_)
      rintro q _ ⟨column, tag, clause, made, rfl⟩
      exact .whereMorphedTo made
    · exact .throw
  | ofMany =>
    dsimp only
    split
    · refine leaves_done (leaves_ofMany.mono ?_)
      rintro q _ ⟨text, values, rfl⟩
      exact .ofMany (.inl rfl)
    · exact .throw
  | extremeOfMany extremum =>
    dsimp only
    split
    · refine leaves_done (leaves_ofMany.mono ?_)
      rintro q _ ⟨text, values, rfl⟩
      exact .ofMany (.inr ⟨extremum, rfl⟩)
    · exact .throw
  | setPivotSource =>
    dsimp only
    split
    · exact leaves_done leaves_setPivotSource
    · exact .throw
  | withPivot => exact leaves_done (.ofSure sure_withPivot)
  | when expected =>
    have handed {callback : Value} :
        Leaves (Leftover env inner (.when expected)) (discard (refine inner callback)) :=
      .beforeSure (leaves_refine.mono fun _ _ ⟨_, _, failed⟩ =>
        .handedOver (.inr (.inr ⟨expected, rfl⟩)) failed) fun _ => .pure
    dsimp only
    split
    · refine leaves_done ?_
      split
      · exact handed
      · unfold refineIfGiven
        split
        · exact .ofReads .pure
        · exact handed
    · exact .throw
  | tap =>
    dsimp only
    split
    · refine leaves_done (.beforeSure (leaves_refine.mono ?_) fun _ => .pure)
      rintro q after ⟨calls, e, failed⟩
      exact .handedOver (.inl rfl) failed
    · exact .throw
  | scope =>
    dsimp only
    split
    · refine leaves_scope.mono ?_
      rintro q after ⟨calls, e, failed⟩
      exact .handedOver (.inr (.inl rfl)) failed
    · exact .throw
  | clone =>
    dsimp only
    split
    · exact .ofReads (Reads.get.bind fun _ => .pure)
    · exact .throw
  | compile =>
    dsimp only
    split
    · exact .ofReads (Reads.get.bind fun _ => Reads.ofExcept.bind fun _ => .pure)
    · exact .throw
  | statement | toSql | getBindings | toRawSql =>
    dsimp only
    split
    · exact .ofReads (reads_checkedStatement.bind fun _ => .pure)
    · exact .throw
  | eagerLoader => exact .ofReads .pure
  | running => exact .ofReads .pure

/-- A call by name: what is done before the method is known changes nothing. -/
theorem call_leaves {c : Call} {q after : Query} {e : Error}
    (failed : call env inner c q = .error e after) :
    after = q ∨ ∃ m, Method.ofName? c.method = some m ∧ Leftover env inner m q after := by
  have step : Leaves (fun q after => ∃ m, Method.ofName? c.method = some m ∧
      Leftover env inner m q after) (call env inner c) := by
    refine .afterReading (steady_settleItems _).reads fun args => ?_
    refine .afterReading (steady_settleNamed _).reads fun named => ?_
    split
    · exact .throw
    · next m found =>
      refine .afterReading .ofExcept fun bound => (leaves_perform m bound).mono ?_
      exact fun _ _ left => ⟨m, found, left⟩
  exact step q e after failed

/-- A builder call that fails leaves the query as it was, but for what the methods leave that change
it too early and for what the calls of a refinement leave that was handed the query itself. -/
theorem failing_call_leaves {depth : Nat} {c : Call} {q after : Query} {e : Error}
    (failed : callUpTo env (depth + 1) c q = .error e after) :
    after = q ∨
      ∃ m, Method.ofName? c.method = some m ∧ Leftover env (callUpTo env depth) m q after :=
  call_leaves failed

end Calls

/-- Posts, the newest first. -/
def orderedPosts : Query := { newPosts with select.orders := [.by "created_at" true] }

/-- A call that orders by a direction that is none. -/
def sidewaysCall : Call := .mk "reorder" [.text "id", .text "sideways"] []

/-- The ordering is gone, although the new one is refused. -/
theorem refused_reorder_drops_order :
    plainEnv.call sidewaysCall orderedPosts = .error (.badDirection "sideways") newPosts ∧
      newPosts ≠ orderedPosts ∧
      Leftover plainEnv (callUpTo plainEnv 399) .reorder orderedPosts newPosts := by
  have failed : callUpTo plainEnv (399 + 1) sidewaysCall orderedPosts =
      .error (.badDirection "sideways") newPosts := rfl
  have other : newPosts ≠ orderedPosts := fun same =>
    absurd (congrArg (·.select.orders) same) nofun
  rcases failing_call_leaves failed with same | ⟨m, named, left⟩
  · exact absurd same other
  · have reorders : Method.ofName? sidewaysCall.method = some .reorder := rfl
    cases named.symm.trans reorders
    exact ⟨failed, other, left⟩

end Relata.Build
