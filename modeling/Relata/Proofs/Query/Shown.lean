import Relata.Proofs.Loading.Batched
import Relata.Proofs.Query.Linked

/-!
The query for related rows, with the key of the parent tagged on or without it, and whatever the columns
that it is restricted to. What is selected decides nothing else: where one of these queries can be built,
so can the others, and they are the same but for their columns. None of them does more to the rows than
to sift them.
-/

namespace Relata

open Sql (Clause Select Source)

namespace Query

/-- The query with other columns. -/
def showing (q : Query) (columns : List Value) : Query :=
  { q with select := { q.select with columns := columns } }

/-- The query with more conditions. -/
def adding (q : Query) (own : List Clause) : Query :=
  { q with select := { q.select with conditions := q.select.conditions ++ own } }

theorem showing_self (q : Query) : q.showing q.select.columns = q := by
  cases q
  rfl

@[simp] theorem showing_showing (q : Query) (columns others : List Value) :
    (q.showing columns).showing others = q.showing others := rfl

theorem adding_nil (q : Query) : q.adding [] = q := by
  cases q
  simp [adding]

theorem adding_adding (q : Query) (own more : List Clause) :
    (q.adding own).adding more = q.adding (own ++ more) := by
  simp [adding]

theorem beside_showing (q : Query) (columns : List Value) : (q.showing columns).Beside q := ⟨rfl, rfl, rfl, rfl⟩

theorem beside_adding (q : Query) (own : List Clause) : (q.adding own).Beside q := ⟨rfl, rfl, rfl, rfl⟩

/-- The rows of a source, and what is joined with them, are read as far as conditions hold of them: they
are not put in order, grouped, cut off or united with others. -/
structure Sifts (q : Query) (source : Source) : Prop where
  frame : q.select.frame = (Select.all source .null).frame
  orders : q.select.orders = []
  branches : q.branches = []

variable {q : Query} {source : Source}

theorem Sifts.showing (h : q.Sifts source) (columns : List Value) : (q.showing columns).Sifts source :=
  ⟨h.frame, h.orders, h.branches⟩

theorem Sifts.adding (h : q.Sifts source) (own : List Clause) : (q.adding own).Sifts source :=
  ⟨h.frame, h.orders, h.branches⟩

end Query

/-- A new query on a model sifts nothing out. -/
theorem Model.sifts_of_query {m : Model} {q : Query} (h : m.query = .ok q) :
    q.Sifts m.source ∧ q.select.conditions = [] ∧ q.select.joins = [] := by
  have new : q.select = .all m.source .null ∧ q.branches = [] :=
    Query.Blind.query (I := fun q => q.select = .all m.source .null ∧ q.branches = []) (fun _ _ own => own)
      ⟨rfl, rfl⟩ h
  obtain ⟨select, branches⟩ := new
  exact ⟨⟨by rw [select], by rw [select]; rfl, branches⟩, by rw [select]; rfl, by rw [select]; rfl⟩

/-- All that calls do to a query for the rows of a model is to put these conditions behind its own, each
joined by AND. -/
structure Env.AddsOnly (env : Env) (calls : List Call) (m : Model) (own : List Clause) : Prop where
  joined : ∀ c ∈ own, c.junction = .and
  run : ∀ {base q : Query}, m.query = .ok base → q.Beside base → env.chain calls q = .ok .self (q.adding own)

/-- Calls of which each adds its conditions add them one after the other. -/
theorem Env.addsOnly_of_each {env : Env} {calls : List Call} {m : Model} {own : Call → List Clause}
    (joined : ∀ call ∈ calls, ∀ c ∈ own call, c.junction = .and)
    (each : ∀ call ∈ calls, ∀ q, env.call call q = .ok .self (q.adding (own call))) :
    env.AddsOnly calls m (calls.flatMap own) where
  joined c there := by
    obtain ⟨call, made, there⟩ := List.mem_flatMap.mp there
    exact joined call made c there
  run {base q} _ _ := by
    clear joined
    suffices ∀ q : Query, env.chain calls q = .ok .self (q.adding (calls.flatMap own)) from this q
    induction calls with
    | nil => exact fun q => congrArg (EStateM.Result.ok Answer.self) q.adding_nil.symm
    | cons call rest ih =>
      intro q
      have later := ih (fun c made => each c (.tail _ made)) (q.adding (own call))
      rw [q.adding_adding] at later
      exact Build.bind_eq_ok (each call (.head _) q) later

namespace Build

variable {α β : Type}

/-- Where the first step ends well, it puts nothing in order, and the second one ends well on a query with
any other columns and leaves the same but for the columns. -/
def Akin (x y : Build α) : Prop :=
  ∀ q a after, x q = .ok a after → after.select.orders = q.select.orders ∧
    ∀ columns, ∃ others, y (q.showing columns) = .ok a (after.showing others)

namespace Akin

variable {x y : Build α} {f g : α → Build β}

theorem bind (first : Akin x y) (rest : ∀ a, Akin (f a) (g a)) : Akin (x >>= f) (y >>= g) := by
  intro q b after run
  obtain ⟨a, between, run, run'⟩ := ok_of_bind run
  obtain ⟨orders, same⟩ := first q a between run
  obtain ⟨orders', same'⟩ := rest a between b after run'
  refine ⟨orders'.trans orders, fun columns => ?_⟩
  obtain ⟨others, same⟩ := same columns
  obtain ⟨others, same'⟩ := same' others
  exact ⟨others, bind_eq_ok same same'⟩

theorem pure (a : α) : Akin (Pure.pure a) (Pure.pure a) := by
  intro q b after run
  cases run
  exact ⟨rfl, fun columns => ⟨columns, rfl⟩⟩

theorem throw {e e' : Error} : Akin (MonadExcept.throw e : Build α) (MonadExcept.throw e') := by
  intro q a after run
  cases run

theorem steady (h : Steady x) : Akin x x := by
  obtain ⟨r, rfl⟩ := h
  cases r with
  | ok a => exact pure a
  | error e => exact throw

theorem ofExcept (r : Except Error α) : Akin (Build.ofExcept r) (Build.ofExcept r) := steady .ofExcept

/-- Nothing but the columns tells the selects apart. -/
theorem changeSelect {change change' : Select → Select} (orders : ∀ s, (change s).orders = s.orders)
    (same : ∀ s columns, ∃ others, change' { s with columns := columns } = { change s with columns := others }) :
    Akin (modifySelect change) (modifySelect change') := by
  intro q a after run
  cases run
  refine ⟨orders q.select, fun columns => ?_⟩
  obtain ⟨others, own⟩ := same q.select columns
  refine ⟨others, ?_⟩
  change EStateM.Result.ok _ { q with select := change' { q.select with columns := columns } } = _
  rw [own]
  rfl

theorem reading {f : Query → Build β} {g : Query → Build β}
    (h : ∀ q columns, Akin (f q) (g (q.showing columns))) : Akin (get >>= f) (get >>= g) :=
  fun q b after run => ⟨(h q [] q b after run).1, fun columns => (h q columns q b after run).2 columns⟩

theorem forM {f : α → Build PUnit} {items : List α} (h : ∀ a, Akin (f a) (f a)) :
    Akin (items.forM f) (items.forM f) := by
  induction items with
  | nil => exact pure _
  | cons a rest ih => exact (h a).bind fun _ => ih

end Akin

theorem akin_addCondition (c : Clause) : Akin (addCondition c) (addCondition c) := by
  unfold addCondition addTo
  exact .changeSelect (fun _ => rfl) fun _ columns => ⟨columns, rfl⟩

theorem akin_keyIn (column : String) (keys : List Value) : Akin (keyIn column keys) (keyIn column keys) :=
  Akin.bind (.steady steady_itemsOf) fun _ => (Akin.steady steady_checkNames).bind fun _ => akin_addCondition _

theorem akin_onlyExtreme (d : Descriptor) (related : Model) (partition : List String) :
    Akin (onlyExtreme d related partition) (onlyExtreme d related partition) :=
  Akin.bind (.steady steady_bindingsOf) fun _ => (Akin.ofExcept _).bind fun _ => akin_addCondition _

theorem akin_select (values others : List Value) : Akin (select values) (select others) := by
  unfold select
  exact .changeSelect (fun _ => rfl) fun _ _ => ⟨_, rfl⟩

theorem akin_join (table first operator second : Value) :
    Akin (join .inner table first operator second) (join .inner table first operator second) :=
  (Akin.ofExcept _).bind fun _ => .changeSelect (fun _ => rfl) fun _ columns => ⟨columns, rfl⟩

theorem akin_setPivotSource (table label : Value) :
    Akin (setPivotSource table label) (setPivotSource table label) := by
  refine .reading fun q columns => ?_
  dsimp only [Query.showing]
  split
  · exact (Akin.steady steady_checkNames).bind fun _ =>
      .changeSelect (fun _ => rfl) fun _ columns => ⟨columns, rfl⟩
  · exact .pure _

theorem akin_withPivot (columns : List Value) : Akin (withPivot columns) (withPivot columns) := by
  refine .forM fun column => .reading fun q _ => ?_
  dsimp only [Query.showing]
  split
  · exact .pure _
  · split
    · unfold selectPivot
      exact .changeSelect (fun _ => rfl) fun _ _ => ⟨_, rfl⟩
    · exact .pure _

/-- The key of the parent can be tagged on or left out. -/
theorem akin_linkKeys (env : Env) (d : Descriptor) (parent related : Model) (keys : List Value)
    (tagKeys others : Bool) :
    Akin (linkKeys env d parent related keys tagKeys) (linkKeys env d parent related keys others) := by
  have extreme (picks : Bool) (partition : List String) :
      Akin (if picks then onlyExtreme d related partition else pure ())
        (if picks then onlyExtreme d related partition else pure ()) := by
    split
    · exact akin_onlyExtreme _ _ _
    · exact .pure _
  unfold linkKeys
  dsimp only
  cases d.kind with
  | hasOne | hasMany => exact (akin_keyIn _ _).bind fun _ => extreme _ _
  | belongsTo => exact akin_keyIn _ _
  | morphOne | morphMany | morphOneOfMany =>
    exact (Akin.ofExcept _).bind fun _ => (akin_keyIn _ _).bind fun _ => (akin_keyIn _ _).bind fun _ =>
      extreme _ _
  | belongsToMany =>
    exact (akin_select _ _).bind fun _ => (akin_join _ _ _ _).bind fun _ => (akin_keyIn _ _).bind fun _ =>
      (akin_setPivotSource _ _).bind fun _ => akin_withPivot _
  | hasOneThrough | hasManyThrough =>
    exact (Akin.ofExcept _).bind fun _ => (akin_select _ _).bind fun _ => (akin_join _ _ _ _).bind fun _ =>
      akin_keyIn _ _
  | morphTo => exact .throw

/-- The columns asked for can be left out. -/
theorem akin_restrictColumns (env : Env) (d : Descriptor) (table : String) (columns : Value) :
    Akin (restrictColumns env d table columns) (pure ()) := by
  unfold restrictColumns
  split
  · intro q a after run
    obtain ⟨items, between, read, change⟩ := ok_of_bind run
    obtain ⟨r, steady⟩ := steady_itemsOf (v := env.opened columns)
    rw [steady] at read
    obtain ⟨-, rfl⟩ := ok_of_ofExcept read
    cases change
    exact ⟨rfl, fun others => ⟨others, rfl⟩⟩
  · exact .pure ()

end Build

variable {env env' : Env} {d : Descriptor} {parent related : Model} {keys : List Value} {q : Query}
  {own : List Clause} {columns : Value} {tagKeys : Bool}

/-- The query for related rows is a new one on their model, linked to the keys, with the conditions of the
relation and with other columns. -/
theorem Env.relationQuery_parts (leads : env.relatedModel d = .ok related)
    (adds : env.AddsOnly d.constraints related own)
    (built : env.relationQuery d parent keys columns tagKeys = .ok q) :
    d.kind ≠ .morphTo ∧ ∃ base linked shown, related.query = .ok base ∧
      Build.linkKeys env d parent related keys tagKeys base = .ok () linked ∧
      q = (linked.adding own).showing shown := by
  unfold Env.relationQuery at built
  dsimp only at built
  split at built
  · cases built
  next fixed =>
  obtain ⟨_, leads', built⟩ := ok_of_bind built
  obtain rfl := Except.ok.inj (leads.symm.trans leads')
  obtain ⟨base, new, built⟩ := ok_of_bind built
  obtain ⟨u, run⟩ := Build.ok_of_finish built
  obtain ⟨⟨⟩, linked, linking, run⟩ := Build.ok_of_bind run
  obtain ⟨⟨⟩, recorded, recording, restricting⟩ := Build.ok_of_bind run
  obtain ⟨-, -, -, beside⟩ := Build.linkKeys_eq_ok linking
  rw [Build.ok_discard (adds.run new beside)] at recording
  cases recording
  obtain ⟨-, restricting⟩ := Build.akin_restrictColumns env d related.table columns _ _ _ restricting
  obtain ⟨others, restricting⟩ := restricting q.select.columns
  injection restricting with _ same
  refine ⟨by simpa using fixed, base, linked, q.select.columns, new, linking, ?_⟩
  calc q = (q.showing others).showing q.select.columns := q.showing_self.symm
    _ = (linked.adding own).showing q.select.columns := by rw [← same, Query.showing_showing]

/-- What the query for related rows asks of them. -/
theorem Env.relationQuery_sifts (leads : env.relatedModel d = .ok related)
    (adds : env.AddsOnly d.constraints related own)
    (built : env.relationQuery d parent keys columns tagKeys = .ok q) :
    q.Sifts related.source ∧ ∃ l, env.linkage d parent related keys = .ok l ∧
      q.select.conditions = (l.tests ++ d.extremeTests related).map (.leaf .and) ++ own := by
  obtain ⟨-, base, linked, shown, new, linking, rfl⟩ := Env.relationQuery_parts leads adds built
  obtain ⟨sifts, none_, -⟩ := Model.sifts_of_query new
  obtain ⟨l, linked_, extended, -⟩ := Build.linkKeys_eq_ok linking
  obtain ⟨orders, -⟩ := Build.akin_linkKeys env d parent related keys tagKeys tagKeys base _ linked linking
  have sifts : linked.Sifts related.source :=
    ⟨extended.frame.trans sifts.frame, orders.trans sifts.orders, extended.branches.trans sifts.branches⟩
  refine ⟨(sifts.adding own).showing shown, l, linked_, ?_⟩
  change linked.select.conditions ++ own = _
  rw [extended.conditions, none_, List.nil_append]

/-- Of the queries for related rows one is like the other: restricted or not, with the key of the parent
tagged on or without it, and wherever the models are the same and the calls recorded on the relation add the
same conditions. -/
theorem Env.relationQuery_showing {others : Bool} (same : env'.toLookup = env.toLookup)
    (leads : env.relatedModel d = .ok related) (adds : env.AddsOnly d.constraints related own)
    (adds' : env'.AddsOnly d.constraints related own)
    (built : env.relationQuery d parent keys columns tagKeys = .ok q) :
    ∃ shown, env'.relationQuery d parent keys .null others = .ok (q.showing shown) := by
  obtain ⟨fixed, base, linked, shown, new, linking, rfl⟩ := Env.relationQuery_parts leads adds built
  obtain ⟨-, -, -, beside⟩ := Build.linkKeys_eq_ok linking
  obtain ⟨first, linking'⟩ : ∃ first, Build.linkKeys env d parent related keys others base =
      .ok () (linked.showing first) := by
    rw [← base.showing_self]
    exact (Build.akin_linkKeys env d parent related keys tagKeys others base _ linked linking).2 _
  have recording := Build.ok_discard (adds'.run new ((linked.beside_showing first).trans beside))
  have run : (do
      Build.linkKeys env' d parent related keys others
      discard (env'.chain d.constraints)
      Build.restrictColumns env' d related.table .null) base =
        .ok () ((linked.showing first).adding own) := by
    rw [Loader.linkKeys_congr same]
    exact Build.bind_eq_ok linking' (Build.bind_eq_ok recording rfl)
  refine ⟨first, ?_⟩
  unfold Env.relationQuery
  rw [if_neg (by simpa using fixed), same, leads]
  change (related.query >>= _) = _
  rw [new]
  change Build.finish base _ = _
  rw [Build.finish, EStateM.run, run]
  rfl

end Relata
