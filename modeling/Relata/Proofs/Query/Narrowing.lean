import Relata.Proofs.Query.Kept

/-!
Steps that narrow a query down. Where such a step ends well, it has put conditions behind those that
were there and has touched nothing else but the order of the rows, the deletion scope and the
relations to load. What it puts there depends on the table that is read, and on no condition: on
another query on the same table the step adds the same.
-/

namespace Relata

open Sql (Clause Join Junction Select)

namespace Query

/-- Queries that agree in what a narrowing step can read. -/
structure Beside (p q : Query) : Prop where
  source : p.select.source = q.select.source
  table : p.select.table = q.select.table
  trashed : p.select.trashed = q.select.trashed
  loads : p.loads = q.loads

theorem Beside.refl (q : Query) : q.Beside q := ⟨rfl, rfl, rfl, rfl⟩

theorem Beside.symm {p q : Query} (h : p.Beside q) : q.Beside p :=
  ⟨h.source.symm, h.table.symm, h.trashed.symm, h.loads.symm⟩

theorem Beside.trans {p q r : Query} (h : p.Beside q) (rest : q.Beside r) : p.Beside r :=
  ⟨h.source.trans rest.source, h.table.trans rest.table, h.trashed.trans rest.trashed,
    h.loads.trans rest.loads⟩

theorem Beside.from_ {p q : Query} (h : p.Beside q) : p.select.from_ = q.select.from_ := by
  simp only [Select.from_, h.source, h.table]

end Query

/-- The select without its columns, conditions and joins, the order of its rows and its scope. -/
def Sql.Select.frame (s : Select) : Select :=
  { s with
    columns := []
    joins := []
    conditions := []
    orders := []
    trashed := .hidden
    bindings := []
    pivot := none }

/-- The second query is the first with conditions and joins behind those that are there. It may
select other columns, order the rows otherwise, read deleted ones or load other relations. -/
structure Query.Extended (own : List Clause) (joins : List Join) (q after : Query) : Prop where
  conditions : after.select.conditions = q.select.conditions ++ own
  joins : after.select.joins = q.select.joins ++ joins
  frame : after.select.frame = q.select.frame
  branches : after.branches = q.branches

namespace Query

theorem Extended.refl (q : Query) : q.Extended [] [] q :=
  ⟨(List.append_nil _).symm, (List.append_nil _).symm, rfl, rfl⟩

theorem Extended.trans {own more : List Clause} {joins others : List Join}
    {q between after : Query} (h : q.Extended own joins between)
    (rest : between.Extended more others after) :
    q.Extended (own ++ more) (joins ++ others) after where
  conditions := by rw [rest.conditions, h.conditions, List.append_assoc]
  joins := by rw [rest.joins, h.joins, List.append_assoc]
  frame := rest.frame.trans h.frame
  branches := rest.branches.trans h.branches

end Query

namespace Build

/-- Where the step ends well, it adds conditions joined as `J` allows and answers a result with `P`;
and it does the same to each query beside the one it was started on. -/
def Narrows {α : Type} (J : Junction → Prop) (step : Build α) (P : α → Prop) : Prop :=
  ∀ q a after, step q = .ok a after → P a ∧ ∃ own : List Clause, (∀ c ∈ own, J c.junction) ∧
    ∀ p : Query, p.Beside q → ∃ end_, step p = .ok a end_ ∧ p.Extended own [] end_ ∧
      end_.Beside after

namespace Narrows

variable {α β : Type} {J : Junction → Prop} {P : α → Prop} {R : β → Prop}

theorem pure {a : α} (h : P a) : Narrows J (Pure.pure a) P := by
  intro q b after run
  cases run
  exact ⟨h, [], by simp, fun p beside => ⟨p, rfl, .refl p, beside⟩⟩

theorem throw {e : Error} : Narrows J (MonadExcept.throw e) P := by
  intro q a after run
  cases run

/-- What follows a failure is not reached. -/
theorem failed {e : Error} {f : α → Build β} :
    Narrows J ((MonadExcept.throw e : Build α) >>= f) R := by
  intro q a after run
  cases run

theorem bind {x : Build α} {f : α → Build β} (hx : Narrows J x P)
    (hf : ∀ a, P a → Narrows J (f a) R) : Narrows J (x >>= f) R := by
  intro q b after run
  obtain ⟨a, between, first, second⟩ := ok_of_bind run
  obtain ⟨ha, own, joined, adds⟩ := hx q a between first
  obtain ⟨hb, more, joined', adds'⟩ := hf a ha between b after second
  refine ⟨hb, own ++ more, ?_, fun p beside => ?_⟩
  · intro c hc
    exact (List.mem_append.mp hc).elim (joined c) (joined' c)
  · obtain ⟨middle, first, extended, beside⟩ := adds p beside
    obtain ⟨end_, second, extended', beside⟩ := adds' middle beside
    exact ⟨end_, bind_eq_ok first second, extended.trans extended', beside⟩

theorem seq {x : Build α} {y : Build β} (hx : Narrows J x fun _ => True) (hy : Narrows J y R) :
    Narrows J (do let _ ← x; y) R :=
  hx.bind fun _ _ => hy

theorem map {f : α → β} {x : Build α} (hx : Narrows J x P) :
    Narrows J (f <$> x) fun _ => True := by
  rw [map_eq_pure_bind]
  exact hx.bind fun _ _ => pure trivial

theorem discard {x : Build α} (hx : Narrows J x P) :
    Narrows J (Functor.discard x) fun _ => True := hx.map

/-- What follows depends on the query by what queries beside each other agree in. -/
theorem reading {f : Query → Build β} (same : ∀ p q, Query.Beside p q → f p = f q)
    (h : ∀ q, Narrows J (f q) R) : Narrows J (MonadState.get >>= f) R := by
  intro q b after run
  obtain ⟨hb, own, joined, adds⟩ := h q q b after run
  refine ⟨hb, own, joined, fun p beside => ?_⟩
  have step : (MonadState.get >>= f) p = f q p := congrFun (same p q beside) p
  rw [step]
  exact adds p beside

/-- A change of the query that adds the conditions `own`, joined as `J` allows. -/
theorem change {f : Query → Query} (own : List Clause) (joined : ∀ c ∈ own, J c.junction)
    (extended : ∀ q : Query, q.Extended own [] (f q))
    (beside : ∀ p q : Query, p.Beside q → (f p).Beside (f q)) :
    Narrows J (modify f : Build Unit) fun _ => True := by
  intro q a after run
  cases run
  exact ⟨trivial, own, joined, fun p h => ⟨f p, rfl, extended p, beside p q h⟩⟩

theorem changeLoads {f : LoadRequest → LoadRequest} :
    Narrows J (modifyLoads f) fun _ => True :=
  change [] (by simp) (fun _ => ⟨(List.append_nil _).symm, (List.append_nil _).symm, rfl, rfl⟩)
    fun _ _ h => { h with loads := congrArg f h.loads }

/-- A change of the order of the rows. -/
theorem changeOrders {f : Select → List Sql.Order} :
    Narrows J (modifySelect fun s => { s with orders := f s }) fun _ => True :=
  change [] (by simp) (fun _ => ⟨(List.append_nil _).symm, (List.append_nil _).symm, rfl, rfl⟩)
    fun _ _ h => { h with }

theorem forM {f : α → Build PUnit} {items : List α}
    (h : ∀ x, Narrows J (f x) fun _ => True) : Narrows J (items.forM f) fun _ => True := by
  induction items with
  | nil => exact pure trivial
  | cons x rest ih => exact (h x).seq ih

theorem mapM {f : α → Build β} {items : List α} (h : ∀ x, Narrows J (f x) fun _ => True) :
    Narrows J (items.mapM f) fun _ => True := by
  induction items with
  | nil => exact pure trivial
  | cons x rest ih =>
    rw [List.mapM_cons]
    exact (h x).bind fun _ _ => ih.bind fun _ _ => pure trivial

theorem foldlM {f : β → α → Build β} {items : List α} {start : β} (hs : R start)
    (h : ∀ b, R b → ∀ x ∈ items, Narrows J (f b x) R) :
    Narrows J (items.foldlM f start) R := by
  induction items generalizing start with
  | nil => exact pure hs
  | cons x rest ih =>
    rw [List.foldlM_cons]
    exact bind (h start hs x (by simp)) fun b hb =>
      ih hb fun c hc y hy => h c hc y (by simp [hy])

theorem filterM {f : α → Build Bool} {items : List α}
    (h : ∀ x, Narrows J (f x) fun _ => True) : Narrows J (items.filterM f) fun _ => True := by
  -- What is kept is gathered on the way, so the induction is on the loop with any such list.
  have adds : ∀ rest found : List α, Narrows J (rest.filterAuxM f found) fun _ => True := by
    intro rest
    induction rest with
    | nil => exact fun _ => pure trivial
    | cons x rest ih => exact fun found => (h x).bind fun _ _ => ih _
  exact (adds items []).bind fun _ _ => pure trivial

end Narrows

theorem Steady.narrows {α : Type} {J : Junction → Prop} {step : Build α} (h : Steady step) :
    Narrows J step fun _ => True := by
  obtain ⟨r, rfl⟩ := h
  cases r with
  | ok a => exact .pure trivial
  | error e => exact .throw

theorem narrows_ofExcept {α : Type} {J : Junction → Prop} {P : α → Prop} {x : Except Error α}
    (h : ∀ a, x = .ok a → P a) : Narrows J (ofExcept x) P := by
  cases x with
  | ok a => exact .pure (h a rfl)
  | error e => exact .throw

variable {J : Junction → Prop} {env : Env} {inner : Caller}

theorem narrows_addCondition {c : Clause} (h : J c.junction) :
    Narrows J (addCondition c) fun _ => True := by
  refine .change [c] (by simpa using h) (fun q => ⟨rfl, (List.append_nil _).symm, rfl, rfl⟩)
    fun p q beside => ?_
  exact { beside with }

theorem narrows_addRaw {junction : Junction} {text bindings : Value} {context : String}
    (h : J junction) :
    Narrows J (addRaw .conditions junction text bindings context) fun _ => True := by
  refine steady_bindingsOf.narrows.bind fun items _ => ?_
  refine (narrows_ofExcept fun c hc => ?_).bind fun c hc => narrows_addCondition hc
  obtain ⟨s, -, rfl⟩ := Sql.Clause.raw_eq_ok hc
  exact h

theorem narrows_addFragment {junction : Junction} {f : Sql.Fragment} {context : String}
    (h : J junction) : Narrows J (addFragment junction f context) fun _ => True := by
  refine (narrows_ofExcept fun c hc => ?_).bind fun c hc => narrows_addCondition hc
  obtain ⟨s, -, rfl⟩ := Sql.Clause.raw_eq_ok hc
  exact h

theorem narrows_comparison {junction : Junction} {column : Value} {operator value : Option Value}
    (h : J junction) :
    Narrows J (comparison junction column operator value) fun c => J c.junction := by
  have rest : ∀ o v : Value, Narrows (α := Clause) J
      (if v.isNull && equalWords.contains (o.asText?.getD "") then do
        checkNames (Sql.nameIssues "column" column)
        return .leaf junction (.null false column.shown)
      else if v.isNull && unequalWords.contains (o.asText?.getD "") then do
        checkNames (Sql.nameIssues "column" column)
        return .leaf junction (.null true column.shown)
      else do
        checkNames (Sql.nameIssues "column" column ++ Sql.nameIssues "operator" o)
        return .leaf junction (.compare column.shown o.shown v)) fun c => J c.junction := by
    intro o v
    split
    · exact steady_checkNames.narrows.seq (.pure h)
    · split
      · exact steady_checkNames.narrows.seq (.pure h)
      · exact steady_checkNames.narrows.seq (.pure h)
  cases value with
  | some v => exact rest (operator.getD .null) v
  | none => cases operator with
    | some v => exact rest (.text "=") v
    | none => exact .throw

theorem narrows_whereIn {junction : Junction} {negated : Bool} {column values : Value}
    (h : J junction) : Narrows J (whereIn junction negated column values) fun _ => True :=
  steady_itemsOf.narrows.bind fun _ _ => steady_checkNames.narrows.seq (narrows_addCondition h)

theorem narrows_whereNull {junction : Junction} {negated : Bool} {column : Value}
    (h : J junction) : Narrows J (whereNull junction negated column) fun _ => True :=
  steady_checkNames.narrows.seq (narrows_addCondition h)

theorem narrows_whereBetween {junction : Junction} {negated : Bool} {column values : Value}
    (h : J junction) : Narrows J (whereBetween junction negated column values) fun _ => True := by
  unfold whereBetween
  refine steady_itemsOf.narrows.bind fun items _ => ?_
  split
  · exact steady_checkNames.narrows.seq (narrows_addCondition h)
  · exact .throw

theorem narrows_whereEach {every : Bool} {columns operator value : Value} (h : J .and) :
    Narrows J (whereEach every columns operator value) fun _ => True := by
  refine steady_itemsOf.narrows.bind fun items _ => ?_
  refine Narrows.bind (.mapM fun column => ?_) fun children _ => narrows_addCondition h
  exact steady_checkNames.narrows.seq (.pure trivial)

theorem narrows_orderBy {column direction : Value} :
    Narrows J (orderBy column direction) fun _ => True := by
  unfold orderBy
  split
  · dsimp only
    split
    · exact .failed
    · exact steady_checkNames.narrows.seq .changeOrders
  · exact .throw

theorem narrows_reorder {column direction : Value} :
    Narrows J (reorder column direction) fun _ => True := by
  unfold reorder
  refine Narrows.changeOrders.seq ?_
  split
  · exact narrows_orderBy
  · exact .pure trivial

theorem narrows_setTrashed {mode : Sql.Trashed} {method : String} :
    Narrows J (setTrashed mode method) fun _ => True := by
  have change : Narrows J (modifySelect fun s => { s with trashed := mode }) fun _ => True :=
    .change [] (by simp) (fun _ => ⟨(List.append_nil _).symm, (List.append_nil _).symm, rfl, rfl⟩)
      fun _ _ h => { h with trashed := rfl }
  refine .reading (fun p q beside => by rw [beside.source]) fun q => ?_
  split
  · exact .failed
  · exact change

theorem narrows_request {path : Value} {columns : List Value} {callback : Value} :
    Narrows J (request path columns callback) fun _ => True := by
  have refined : Narrows J
      (if !callback.isNull then do checkKey path; modifyLoads (·.refine path callback)
        else pure ()) fun _ => True := by
    split
    · exact steady_checkKey.narrows.seq .changeLoads
    · exact .pure trivial
  unfold request
  refine Narrows.changeLoads.seq ?_
  dsimp only
  split
  · exact steady_checkKey.narrows.seq (Narrows.changeLoads.seq refined)
  · exact refined

theorem narrows_withPath {path callback : Value} :
    Narrows J (withPath path callback) fun _ => True :=
  Steady.ofExcept.narrows.bind fun _ _ => narrows_request

theorem narrows_with_ {relations callback : Value} :
    Narrows J (with_ relations callback) fun _ => True := by
  unfold with_
  split
  · exact narrows_withPath
  · refine .forM fun entry => ?_
    obtain ⟨path, value⟩ := entry
    change Narrows J (withEntry path value) _
    unfold withEntry
    split
    · exact Steady.ofExcept.narrows.bind fun _ _ => narrows_request
    · exact narrows_withPath
  · exact steady_itemsOf.narrows.bind fun _ _ => .forM fun _ => narrows_withPath

theorem narrows_without {values : List Value} : Narrows J (without values) fun _ => True := by
  refine Narrows.seq (.forM fun _ => steady_checkKey.narrows) ?_
  refine .reading (fun p q beside => by rw [beside.loads]) fun q => ?_
  exact Narrows.seq (.forM fun _ => steady_checkKey.narrows) .changeLoads

theorem narrows_group {target : Target} {junction : Junction} {negated : Bool} {callback : Value}
    (h : J junction) :
    Narrows J (group inner target junction negated callback) fun c => J c.junction := by
  refine .reading (fun p q beside => by rw [beside.source, beside.table]) fun q => ?_
  dsimp only
  split
  · exact .failed
  · exact Steady.on.narrows.bind fun _ _ => .pure h

theorem narrows_compareOrGroup {junction : Junction} {column : Value}
    {operator value : Option Value} (h : J junction) :
    Narrows J (compareOrGroup inner .conditions junction column operator value)
      fun _ => True := by
  unfold compareOrGroup
  split
  · exact (narrows_group h).bind fun _ hc => narrows_addCondition hc
  · exact (narrows_comparison h).bind fun _ hc => narrows_addCondition hc

theorem narrows_whereNot {column : Value} {operator value : Option Value} (h : J .and) :
    Narrows J (whereNot inner column operator value) fun _ => True := by
  unfold whereNot
  split
  · exact (narrows_group h).bind fun _ hc => narrows_addCondition hc
  · split
    · split
      · exact (narrows_comparison h).bind fun _ hc => narrows_addCondition hc
      · exact (narrows_comparison h).bind fun _ hc => narrows_addCondition hc
    · split
      · exact (narrows_comparison h).bind fun _ hc => narrows_addCondition hc
      · exact .throw

theorem narrows_model :
    Narrows J (model env) fun m => ∃ id, env.catalog.model? id = some m := by
  refine .reading (fun p q beside => by rw [beside.source]) fun q => ?_
  split
  · rename_i m hm
    exact .pure ⟨_, hm⟩
  · exact .throw

theorem narrows_require {relation : Value} : Narrows J (require env relation) fun _ => True :=
  narrows_model.bind fun _ _ => Steady.ofExcept.narrows

theorem narrows_requireMorphTo {relation : Value} :
    Narrows J (requireMorphTo env relation) fun _ => True := by
  refine narrows_require.bind fun d _ => ?_
  dsimp only
  split
  · exact .failed
  · exact .pure trivial

theorem narrows_link {d : Descriptor} {related : Model} {parent : String} :
    Narrows J (link env d related parent) fun _ => True := by
  unfold link
  dsimp only
  split
  case h_1 | h_2 | h_3 | h_7 => exact .pure trivial
  case h_4 | h_5 | h_6 =>
    exact narrows_model.bind fun _ _ => Steady.ofExcept.narrows.bind fun _ _ => .pure trivial
  case h_8 | h_9 => exact Steady.ofExcept.narrows.bind fun _ _ => .pure trivial
  case h_10 => exact .throw

theorem narrows_relatedRows {relation callback : Value} :
    Narrows J (relatedRows env inner relation callback) fun _ => True := by
  refine narrows_require.bind fun d _ => ?_
  dsimp only
  split
  · exact .failed
  · refine .reading (fun p q beside => by rw [beside.from_]) fun q => ?_
    refine Steady.ofExcept.narrows.bind fun related _ => ?_
    refine Steady.ofExcept.narrows.bind fun base _ => ?_
    exact Steady.on.narrows.bind fun _ _ => narrows_link.bind fun _ _ => .pure trivial

theorem narrows_existsQuery {relation callback : Value} :
    Narrows J (existsQuery env inner relation callback) fun _ => True :=
  narrows_relatedRows.bind fun _ _ => .pure trivial

theorem narrows_countQuery {relation callback : Value} :
    Narrows J (countQuery env inner relation callback) fun _ => True :=
  narrows_relatedRows.bind fun _ _ => .pure trivial

theorem narrows_whereHas {junction : Junction} {relation callback operator count : Value}
    (h : J junction) :
    Narrows J (whereHas env inner junction relation callback operator count) fun _ => True := by
  unfold whereHas
  dsimp only
  split
  · exact narrows_existsQuery.bind fun _ _ => narrows_addFragment h
  · exact narrows_countQuery.bind fun _ _ => narrows_addFragment h

theorem narrows_has {junction : Junction} {relation operator count : Value} (h : J junction) :
    Narrows J (has env inner junction relation operator count) fun _ => True := by
  unfold has
  split
  · exact narrows_whereHas h
  · exact narrows_whereHas h

theorem narrows_doesntHave {junction : Junction} {relation callback : Value} (h : J junction) :
    Narrows J (doesntHave env inner junction relation callback) fun _ => True :=
  narrows_existsQuery.bind fun _ _ => narrows_addFragment h

theorem narrows_inferOwner {owner : Value} :
    Narrows J (inferOwner env owner) fun _ => True := by
  refine narrows_model.bind fun self _ => ?_
  refine Narrows.bind (.filterM fun name => ?_) fun names _ => ?_
  · refine narrows_require.bind fun d _ => ?_
    split
    · exact .pure trivial
    · exact Steady.ofExcept.narrows.bind fun _ _ => .pure trivial
  · split
    · exact .pure trivial
    · exact .throw

theorem narrows_whereOwned {several : Bool} {items : List Value} {relation : Value} (h : J .and) :
    Narrows J (whereOwned env several items relation) fun _ => True := by
  refine narrows_require.bind fun d _ => ?_
  dsimp only
  split
  · exact .failed
  · refine (Narrows.mapM fun _ => steady_attributeOf.narrows).bind fun keys _ => ?_
    split
    · exact narrows_addRaw h
    · split
      · exact narrows_whereIn h
      · exact (narrows_comparison h).bind fun _ hc => narrows_addCondition hc

theorem narrows_whereBelongsTo {related relation : Value} (h : J .and) :
    Narrows J (whereBelongsTo env related relation) fun _ => True := by
  unfold whereBelongsTo
  dsimp only
  split
  · exact narrows_addRaw h
  · split
    · exact narrows_inferOwner.map.bind fun _ _ => narrows_whereOwned h
    · exact narrows_whereOwned h

theorem narrows_whereHasMorph {junction : Junction} {relation types callback : Value}
    (h : J junction) :
    Narrows J (whereHasMorph env inner junction relation types callback) fun _ => True := by
  refine narrows_requireMorphTo.bind fun d _ => ?_
  refine .reading (fun p q beside => by rw [beside.from_]) fun q => ?_
  exact (Narrows.mapM fun _ => steady_targetOfType.narrows).bind fun _ _ => narrows_addFragment h

theorem narrows_whereMorphedTo {relation target : Value} (h : J .and) :
    Narrows J (whereMorphedTo env relation target) fun _ => True := by
  refine narrows_requireMorphTo.bind fun d _ => ?_
  refine (narrows_comparison h).bind fun _ hc => (narrows_addCondition hc).seq ?_
  refine steady_attributeOf.narrows.bind fun id _ => ?_
  exact (narrows_comparison h).bind fun _ hc => narrows_addCondition hc

end Build

end Relata
