import Relata.Proofs.Loading.Existing
import Relata.Proofs.Query.Counting
import Relata.Proofs.Schema.Inherited

/-!
Counting the related rows of objects that are at hand. One statement is sent for all of them, with each
identifier once, and none if no object has an identifier. Main statement: each object that has one gets,
for each relation of the request, a column with the number in the row that bears its identifier, and
nothing else changes. The column stands beside the fields of the object; where its class declares a field
of that name, it is the field that is read.
-/

namespace Relata

open Act (Runs)
open Sql (Fragment)

/-- The number that a count tells; one that is null or empty tells of none. -/
def Value.number (v : Value) : Except Error Int := if v.truthy then Sql.Select.rowCount v else .ok 0

/-- The values, equal ones among them once. -/
structure Value.Once (values once : List Value) : Prop where
  apart : once.Pairwise fun a b => same b a = false
  among : ∀ v ∈ values, Among once v
  given : ∀ v ∈ once, v ∈ values

theorem Value.once_distinct (values : List Value) : Once values (distinct values) :=
  ⟨pairwise_distinct values, fun _ => among_distinct, fun _ => mem_of_mem_distinct⟩

namespace Row

/-- The value in a column of the row that bears an identifier, null if there is no such row or it has no
such column. -/
def valueOf (rows : List Row) (id : Value) (column : String) : Value :=
  ((rows.find? fun row => (row.lookup "id").any id.same).bind (·.lookup column)).getD .null

/-- Rows of which each bears an identifier, and no two the same. -/
structure Identified (rows : List Row) : Prop where
  each : ∀ row ∈ rows, ∃ id, row.lookup "id" = some id ∧ id.isKey = true
  apart : rows.Pairwise fun row other => ∀ id id', row.lookup "id" = some id →
    other.lookup "id" = some id' → id.same id' = false

/-- The identifier of a row. -/
def identifier (row : Row) : Value := (row.lookup "id").getD .null

/-- The last row that is filed under an identifier is the first one that bears it. -/
theorem lookup?_reverse {rows : List Row} (identified : Identified rows) {id : Value}
    (key : id.isKey = true) :
    Value.lookup? id (rows.map fun row => (row.identifier, row)).reverse =
      rows.find? fun row => (row.lookup "id").any id.same := by
  induction rows with
  | nil => rfl
  | cons row rest ih =>
    obtain ⟨first, apart⟩ := List.pairwise_cons.mp identified.apart
    obtain ⟨own, here, hkey⟩ := identified.each row (.head _)
    have others := ih ⟨fun r there => identified.each r (.tail _ there), apart⟩
    have filed : row.identifier = own := by simp [identifier, here]
    rw [List.map_cons, List.reverse_cons, Matches.lookup?_append, others, List.find?_cons, here,
      Option.any_some, filed]
    cases same : id.same own with
    | false => simp [Value.lookup?, same]
    | true =>
      have none_ : (rest.find? fun row => (row.lookup "id").any id.same) = none := by
        refine List.find?_eq_none.mpr fun other there bears => ?_
        obtain ⟨id', found, equal⟩ := (Option.any_eq_true _ _).mp bears
        have both := Value.same_trans hkey (Value.same_symm key same) equal
        rw [first other there own id' here found] at both
        cases both
      simp [none_, Value.lookup?, same]

end Row

namespace World

variable {τ : Type}

/-- The identifier of a value that is an object. -/
def idOf (w : World τ) : Value → Value
  | .object i => (w.object? i).elim .null Entity.id
  | _ => .null

/-- Objects and gaps between them; each object has the field of an identifier. -/
def Known (w : World τ) (objects : List Value) : Prop :=
  ∀ o ∈ objects, o = .null ∨
    ∃ i e v, o = .object i ∧ w.object? i = some e ∧ e.fields.lookup "id" = some v

/-- The objects that have an identifier, each with it. -/
def identified (w : World τ) (objects : List Value) : List (Value × Value) :=
  ((objects.filter (!·.isNull)).map fun o => (o, w.idOf o)).filter (!·.2.isNull)

/-- The identifiers of those objects. -/
def identifiers (w : World τ) (objects : List Value) : List Value := (w.identified objects).map (·.2)

/-- The columns `which` are set to what `value` tells, and nothing else is changed. -/
structure Sets (value : ObjectId → String → Value) (which : ObjectId → String → Prop) (w t : World τ) :
    Prop where
  rest : t = { w with objects := t.objects }
  size : t.objects.size = w.objects.size
  object : ∀ i e, w.object? i = some e → ∃ extra, t.object? i = some { e with extra := extra } ∧
    ∀ name, (which i name → extra.lookup name = some (value i name)) ∧
      (¬ which i name → extra.lookup name = e.extra.lookup name)
  others : ∀ i, (∀ name, ¬ which i name) → t.object? i = w.object? i

namespace Sets

variable {value : ObjectId → String → Value} {which which' : ObjectId → String → Prop} {w t u : World τ}

theorem refl (w : World τ) : Sets value (fun _ _ => False) w w where
  rest := rfl
  size := rfl
  object _ e there := ⟨e.extra, there, fun _ => ⟨False.elim, fun _ => rfl⟩⟩
  others _ _ := rfl

theorem trans (h : Sets value which w t) (h' : Sets value which' t u) :
    Sets value (fun i name => which i name ∨ which' i name) w u where
  rest := by
    rw [h'.rest, h.rest]
  size := h'.size.trans h.size
  object i e there := by
    obtain ⟨extra, between, columns⟩ := h.object i e there
    obtain ⟨extra', after, columns'⟩ := h'.object i _ between
    refine ⟨extra', after, fun name => ⟨fun set => ?_, fun unset => ?_⟩⟩
    · by_cases later : which' i name
      · exact (columns' name).1 later
      · rw [(columns' name).2 later]
        exact (columns name).1 (set.resolve_right later)
    · rw [not_or] at unset
      rw [(columns' name).2 unset.2, (columns name).2 unset.1]
  others i unset := by
    rw [h'.others i fun name set => unset name (.inr set), h.others i fun name set => unset name (.inl set)]

theorem congr (h : Sets value which w t) (same : ∀ i name, which i name ↔ which' i name) :
    Sets value which' w t := by
  obtain rfl : which = which' := funext fun i => funext fun name => propext (same i name)
  exact h

/-- One column of one object. -/
theorem modified (w : World τ) (i : ObjectId) (name : String) :
    Sets value (fun j column => j = i ∧ column = name) w
      (w.modified i fun e => { e with extra := Row.put e.extra name (value i name) }) where
  rest := rfl
  size := Array.size_modify ..
  object j e there := by
    rw [object?_modified, there]
    by_cases own : i = j
    · subst own
      rw [if_pos rfl]
      refine ⟨_, rfl, fun column => ?_⟩
      rw [Row.put, Catalog.lookup_put]
      by_cases same : column = name <;> simp [same]
    · rw [if_neg own]
      exact ⟨e.extra, rfl, fun column => ⟨fun set => absurd set.1.symm own, fun _ => rfl⟩⟩
  others j unset := by
    rw [object?_modified, if_neg fun own => unset name ⟨own.symm, rfl⟩]

end Sets

theorem requireProperty_of_known {w : World τ} {objects : List Value} (known : w.Known objects) {o : Value}
    (there : o ∈ objects.filter (!·.isNull)) :
    (∃ i, o = .object i) ∧ w.requireProperty o "id" = .ok (w.idOf o) := by
  obtain ⟨member, some_⟩ := List.mem_filter.mp there
  obtain rfl | ⟨i, e, v, rfl, own, id⟩ := known o member
  · cases some_
  · refine ⟨⟨i, rfl⟩, ?_⟩
    simp [Env.requireProperty, Env.property?, own, Env.propertyOf?, id, idOf, Entity.id, bind, Except.bind,
      pure, Except.pure]

theorem object_of_identified {w : World τ} {objects : List Value} (known : w.Known objects)
    {p : Value × Value}
    (there : p ∈ w.identified objects) : ∃ i, p = (.object i, w.idOf (.object i)) := by
  obtain ⟨o, member, rfl⟩ := List.mem_map.mp (List.mem_filter.mp there).1
  obtain ⟨⟨i, rfl⟩, -⟩ := requireProperty_of_known known member
  exact ⟨i, rfl⟩

end World

namespace Deed

variable {τ : Type} {rely : World τ → World τ → Prop} {w w' : World τ}

/-- One column of one object is set to the number that the row tells. -/
theorem runs_column {row : Row} {name : String} {n : Int} (i : ObjectId)
    (told : ((row.lookup name).getD .null).number = .ok n) (w : World τ) :
    Runs rely (do
      let v := (row.lookup name).getD .null
      let n ← if v.truthy then Act.ofExcept (Sql.Select.rowCount v) else pure 0
      modifyEntity (.object i) fun e => { e with extra := Row.put e.extra name (.int n) }) w [] (.ok ())
      (w.modified i fun e => { e with extra := Row.put e.extra name (.int n) }) := by
  generalize (row.lookup name).getD .null = v at told ⊢
  have sets : Runs rely (modifyEntity (.object i) fun e => { e with extra := Row.put e.extra name (.int n) }) w []
      (.ok ()) (w.modified i fun e => { e with extra := Row.put e.extra name (.int n) }) := .modify _ w
  unfold Value.number at told
  dsimp only
  split at told
  · next given =>
    rw [if_pos given, told]
    exact (Runs.ofExcept (.ok n) w).bind_silent sets
  · next nothing =>
    obtain rfl := Except.ok.inj told
    rw [if_neg nothing]
    exact sets

/-- All columns of one object. -/
theorem runs_columns {row : Row} {value : ObjectId → String → Int} (i : ObjectId) (names : List String)
    (told : ∀ name ∈ names, ((row.lookup name).getD .null).number = .ok (value i name)) (w : World τ) :
    ∃ t, Runs rely (names.forM fun name => do
        let v := (row.lookup name).getD .null
        let n ← if v.truthy then Act.ofExcept (Sql.Select.rowCount v) else pure 0
        modifyEntity (.object i) fun e => { e with extra := Row.put e.extra name (.int n) }) w [] (.ok ()) t ∧
      World.Sets (fun i name => .int (value i name)) (fun j name => j = i ∧ name ∈ names) w t := by
  induction names generalizing w with
  | nil => exact ⟨w, .ofExcept (.ok ()) w, (World.Sets.refl w).congr (by simp)⟩
  | cons name rest ih =>
    have own := @runs_column _ rely _ _ _ i (told name (.head _)) w
    obtain ⟨t, others, sets⟩ := ih (fun other there => told other (.tail _ there)) _
    refine ⟨t, own.bind_silent others, ((World.Sets.modified w i name).trans sets).congr fun j column => ?_⟩
    rw [← and_or_left, List.mem_cons]

/-- All columns of all objects. -/
theorem runs_counts {keyed : List (Value × Row)} {value : ObjectId → String → Int} (names : List String)
    {pairs : List (Value × Value)} (objects : ∀ p ∈ pairs, ∃ i, p.1 = .object i)
    (told : ∀ i id, (Value.object i, id) ∈ pairs → ∀ name ∈ names,
      ((((Value.lookup? id keyed.reverse).getD []).lookup name).getD .null).number = .ok (value i name))
    (w : World τ) :
    ∃ t, Runs rely (pairs.forM fun (o, id) =>
        let row := (Value.lookup? id keyed.reverse).getD []
        names.forM fun name => do
          let v := (row.lookup name).getD .null
          let n ← if v.truthy then Act.ofExcept (Sql.Select.rowCount v) else pure 0
          modifyEntity o fun e => { e with extra := Row.put e.extra name (.int n) }) w [] (.ok ()) t ∧
      World.Sets (fun i name => .int (value i name))
        (fun i name => (∃ id, (Value.object i, id) ∈ pairs) ∧ name ∈ names) w t := by
  induction pairs generalizing w with
  | nil => exact ⟨w, .ofExcept (.ok ()) w, (World.Sets.refl w).congr (by simp)⟩
  | cons p rest ih =>
    obtain ⟨o, id⟩ := p
    obtain ⟨i, rfl⟩ := objects _ (.head _)
    obtain ⟨u, own, sets⟩ := @runs_columns _ rely _ _ i names (told i id (.head _)) w
    obtain ⟨t, others, sets'⟩ := ih (fun q there => objects q (.tail _ there))
      (fun j id' there => told j id' (.tail _ there)) u
    refine ⟨t, own.bind_silent others, (sets.trans sets').congr fun j name => ?_⟩
    simp only [List.mem_cons, Prod.mk.injEq, Value.object.injEq]
    constructor
    · rintro (⟨rfl, named⟩ | ⟨⟨id', there⟩, named⟩)
      · exact ⟨⟨id, .inl ⟨rfl, rfl⟩⟩, named⟩
      · exact ⟨⟨id', .inr there⟩, named⟩
    · rintro ⟨⟨id', ⟨rfl, -⟩ | there⟩, named⟩
      · exact .inl ⟨rfl, named⟩
      · exact .inr ⟨⟨id', there⟩, named⟩

/-- At most one statement is sent. -/
theorem sendsAtMost_loadCounts (objects : List Value) (relations : Value) :
    (loadCounts (τ := τ) objects relations).SendsAtMost 1 := by
  have modified (v : Value) (f : Entity → Entity) : (modifyEntity (τ := τ) v f).SendsAtMost 0 := by
    unfold modifyEntity
    split
    · exact .modify _
    · exact .ofExcept _
  refine (Act.SendsAtMost.mapM fun _ =>
    (Act.SendsAtMost.getsExcept _).silent_bind fun _ => .pure _).silent_bind fun withIds => ?_
  dsimp only
  split
  · exact (Act.SendsAtMost.pure _).mono (Nat.zero_le 1)
  · refine (Act.SendsAtMost.getsExcept _).silent_bind fun q =>
      (Act.SendsAtMost.ofExcept _).silent_bind fun names => ?_
    have rows : (q.rows (τ := τ)).SendsAtMost 1 :=
      (Act.SendsAtMost.ofExcept _).silent_bind fun _ => (Act.SendsAtMost.getsExcept _).silent_bind fun _ => .ask _
    refine rows.bind (n := 0) fun rows => (Act.SendsAtMost.mapM fun row => ?_).silent_bind fun keyed => ?_
    · split
      · split
        · exact .pure _
        · exact .ofExcept _
      · exact .ofExcept _
    · refine .forM fun _ => .forM fun _ => ?_
      split
      · exact (Act.SendsAtMost.ofExcept _).silent_bind fun _ => modified _ _
      · exact (Act.SendsAtMost.pure _).silent_bind fun _ => modified _ _

/-- The identifiers are read first. -/
theorem runs_identifiers {objects : List Value} (known : w.Known objects) :
    Runs rely ((objects.filter (!·.isNull)).mapM fun o => do
      return (o, ← Act.getsExcept fun w : World τ => w.requireProperty o "id")) w []
      (.ok ((objects.filter (!·.isNull)).map fun o => (o, w.idOf o))) w :=
  .mapM_quiet fun o there => by
    have read : Runs rely (Act.getsExcept fun w : World τ => w.requireProperty o "id") w []
        (.ok (w.idOf o)) w :=
      .getsExcept_ok (World.requireProperty_of_known known there).2
    exact read.bind_silent (.ofExcept (.ok (o, w.idOf o)) w)

/-- Nothing is counted for objects without an identifier. -/
theorem runs_loadCounts_nil {objects : List Value} (known : w.Known objects)
    (none_ : w.identified objects = [])
    (relations : Value) : Runs rely (loadCounts objects relations) w [] (.ok ()) w := by
  refine (runs_identifiers known).bind_silent ?_
  dsimp only
  rw [World.identified] at none_
  rw [none_]
  exact .ofExcept (.ok ()) w

/-- Objects that have an identifier are counted for by one statement. -/
theorem runs_loadCounts {objects : List Value} {relations o id : Value} {others : List (Value × Value)}
    {m : Model} {q : Query} {names : List String} {f : Fragment} {n : Nat} {rows : List Row}
    {value : ObjectId → String → Int} (known : w.Known objects)
    (first : w.identified objects = (o, id) :: others) (keys : ∀ p ∈ w.identified objects, p.2.isKey = true)
    (model : w.modelOfValue? o = some m)
    (asked : countingQuery w.toEnv m relations (w.identifiers objects) = .ok q)
    (named : (q.select.columns.drop 1).mapM (fun c => aliasOf c.shown) = .ok names)
    (passed : q.statement.checked "rows" = .ok f) (runner : w.runner q.select.source.connection = .ok n)
    (while_ : rely w w') (bear : Row.Identified rows)
    (told : ∀ i id, (Value.object i, id) ∈ w.identified objects → ∀ name ∈ names,
      (Row.valueOf rows id name).number = .ok (value i name)) :
    ∃ t, Runs rely (loadCounts objects relations) w [(⟨n, f.text, f.values⟩, .ok rows)] (.ok ()) t ∧
      World.Sets (fun i name => .int (value i name))
        (fun i name => (∃ id, (Value.object i, id) ∈ w.identified objects) ∧ name ∈ names) w' t := by
  obtain ⟨t, sets, changes⟩ := @runs_counts _ rely (rows.map fun row => (row.identifier, row)) value names
    (w.identified objects)
    (fun p there => by
      obtain ⟨i, rfl⟩ := World.object_of_identified known there
      exact ⟨i, rfl⟩)
    (fun i id there name listed => by
      rw [Row.lookup?_reverse bear (keys _ there), ← told i id there name listed, Row.valueOf]
      cases rows.find? fun row => (row.lookup "id").any id.same <;> rfl) w'
  refine ⟨t, (runs_identifiers known).bind_silent ?_, changes⟩
  have whole : ((objects.filter (!·.isNull)).map fun o => (o, w.idOf o)).filter (!·.2.isNull) =
      w.identified objects := rfl
  dsimp only
  rw [whole]
  rw [World.identifiers] at asked
  rw [first] at asked sets ⊢
  have answer : Runs rely (q.rows (τ := τ)) w [(⟨n, f.text, f.values⟩, .ok rows)] (.ok rows) w' := by
    unfold Query.rows
    rw [passed]
    exact (Runs.ofExcept (.ok f) w).bind_silent (Query.runs_execute runner while_ (.ok rows))
  refine Runs.bind_silent (a := q) (Runs.getsExcept_ok ?_) ?_
  · rw [model]
    exact asked
  · rw [named]
    refine (Runs.ofExcept (.ok names) w).bind_silent (answer.bind_quiet (Runs.bind_silent ?_ sets))
    refine .mapM_quiet fun row there => ?_
    obtain ⟨own, here, key⟩ := bear.each row there
    simp only [here, key, if_true, Row.identifier, Option.getD_some]
    exact .ofExcept (.ok (own, row)) w'

end Deed

namespace Env

/-- A request for numbers of related rows, in one of its forms and without holes. A name of a relation
that itself gives a name is none. -/
structure Counts (env : Env) (m : Model) (relations : Value) (requested : List (Value × Value)) : Prop where
  names : relations.Requests requested
  filled : env.Filled relations
  plain : ∀ r ∈ requested, ¬ " AS ".toList <:+: ' ' :: (Build.countName r.1).toList
  new : ∃ base, m.query = .ok base

/-- The class of an object has no field, no relation and no method of that name. -/
structure Vacant (env : Env) (i : ObjectId) (name : String) : Prop where
  field : ∃ e, env.object? i = some e ∧ e.fields.lookup name = none ∧
    ((env.modelOf? e).any fun m => m.declared.any (·.1 == name)) = false
  method : methodNames.contains name = false

/-- What is read of an object does not go by what is kept beside its fields, unless the name is free. -/
theorem propertyOf?_beside {env env' : Env} (catalog : env'.catalog = env.catalog) {i : ObjectId} {e : Entity}
    (there : env.object? i = some e) {extra : Row} {name : String}
    (same : env.Vacant i name → extra.lookup name = e.extra.lookup name) :
    env'.propertyOf? { e with extra := extra } name = env.propertyOf? e name := by
  have model : env'.modelOf? { e with extra := extra } = env.modelOf? e := by
    rw [modelOf?, modelOf?, catalog]
  unfold propertyOf?
  split
  · rfl
  · rw [model]
    dsimp only
    cases field : e.fields.lookup name with
    | some v => rfl
    | none =>
      dsimp only
      split
      · rfl
      · next undeclared =>
        split
        · rfl
        · next method =>
          have free : env.Vacant i name :=
            ⟨⟨e, there, field, Bool.eq_false_iff.mpr undeclared⟩, Bool.eq_false_iff.mpr method⟩
          rw [same free]
          rfl

/-- The number of related rows is read under its name, if that is free. -/
theorem propertyOf?_countName {env : Env} {i : ObjectId} {e : Entity} (there : env.object? i = some e)
    {relation : Value} (free : env.Vacant i (Build.countName relation)) :
    env.propertyOf? e (Build.countName relation) = .ok (e.extra.lookup (Build.countName relation)) := by
  obtain ⟨⟨e', own, field, undeclared⟩, method⟩ := free
  obtain rfl := Option.some.inj (there.symm.trans own)
  have other {s : String} (end_ : ¬ "_count".toList <:+ s.toList) : Build.countName relation ≠ s := by
    rintro rfl
    exact end_ ⟨_, (String.toList_append ..).symm⟩
  unfold propertyOf?
  rw [if_neg (other (by decide)), field, if_neg (by simpa using undeclared), if_neg (by simpa using method),
    if_neg (other (by decide)), if_neg (other (by decide)), if_neg (other (by decide))]

end Env

namespace World

variable {τ : Type} {value : ObjectId → String → Value} {which : ObjectId → String → Prop}
  {w t : World τ}

/-- Attributes are read as before but for columns that are set under a free name. -/
theorem Sets.property? (h : Sets value which w t) {i : ObjectId} {name : String}
    (same : ¬ (which i name ∧ w.Vacant i name)) :
    t.property? (.object i) name = w.property? (.object i) name := by
  have catalog : t.catalog = w.catalog := by rw [h.rest]
  cases there : w.object? i with
  | none =>
    have gone : t.object? i = none := by
      have outside := Array.getElem?_eq_none_iff.mp there
      exact Array.getElem?_eq_none_iff.mpr (h.size ▸ outside)
    simp only [Env.property?, there, gone]
  | some e =>
    obtain ⟨extra, later, columns⟩ := h.object i e there
    simp only [Env.property?, there, later]
    exact Env.propertyOf?_beside catalog there fun free => (columns name).2 fun set => same ⟨set, free⟩

theorem Sets.property?_countName (h : Sets value which w t) {i : ObjectId} {relation : Value}
    (set : which i (Build.countName relation)) (free : w.Vacant i (Build.countName relation)) :
    t.property? (.object i) (Build.countName relation) = .ok (some (value i (Build.countName relation))) := by
  obtain ⟨⟨e, there, field, undeclared⟩, method⟩ := free
  obtain ⟨extra, later, columns⟩ := h.object i e there
  have model : t.modelOf? { e with extra := extra } = w.modelOf? e := by
    rw [Env.modelOf?, Env.modelOf?, h.rest]
  have free' : t.Vacant i (Build.countName relation) :=
    ⟨⟨_, later, field, by rw [model]; exact undeclared⟩, method⟩
  simp only [Env.property?, later]
  rw [Env.propertyOf?_countName later free', (columns _).1 set]

/-- The columns that counting sets: one for each relation of the request, on each object that has an
identifier. -/
def Counted (w : World τ) (objects : List Value) (requested : List (Value × Value)) (i : ObjectId)
    (name : String) : Prop :=
  (∃ id, (Value.object i, id) ∈ w.identified objects) ∧ ∃ r ∈ requested, name = Build.countName r.1

end World

namespace Deed

variable {τ : Type} {rely : World τ → World τ → Prop} {w : World τ} {objects : List Value}

/-- Counting on objects, whatever gaps and repetitions there are among them, and whatever others do
meanwhile. At most one statement is sent, and none if no object has an identifier. Otherwise, if the
request is accepted and the statement may be sent, it holds each identifier once; and whatever rows it is
answered with, as long as no two of them bear the same identifier and each tells its numbers, each object
that has an identifier gets the number of each relation, and nothing else changes. That number is what is
read of the object under the name of the count, unless its class has something of that name, a field for
one, which is read as before. -/
theorem counting_sets_numbers_of_each_object (known : w.Known objects) (relations : Value) :
    (∀ sent r t, Runs rely (loadCounts objects relations) w sent r t → sent.length ≤ 1) ∧
    (w.identified objects = [] → Runs rely (loadCounts objects relations) w [] (.ok ()) w) ∧
    ∀ {o id others m requested answer q}, w.identified objects = (o, id) :: others →
      w.areKeys (w.identifiers objects) = true → w.modelOfValue? o = some m →
      w.Counts m relations requested →
      w.call (.mk "with_count" [relations] []) m.identifiers = .ok answer q →
      ∃ counts ids, counts.map (·.1) = requested.map (·.1) ∧ ids = Value.distinct (w.identifiers objects) ∧
        Value.Once (w.identifiers objects) ids ∧
        ∀ {f n w' rows} {value : ObjectId → String → Int},
          (m.withIds q ids).statement.checked "rows" = .ok f → w.runner m.connection = .ok n → rely w w' →
          Row.Identified rows →
          (∀ i id, (Value.object i, id) ∈ w.identified objects → ∀ r ∈ requested,
            (Row.valueOf rows id (Build.countName r.1)).number = .ok (value i (Build.countName r.1))) →
          f = m.countStatement counts ids ∧
          ∃ t, Runs rely (loadCounts objects relations) w [(⟨n, f.text, f.values⟩, .ok rows)] (.ok ()) t ∧
            World.Sets (fun i name => .int (value i name)) (w.Counted objects requested) w' t ∧
            (∀ i name, w.Counted objects requested i name → w'.Vacant i name →
              t.property? (.object i) name = .ok (some (.int (value i name)))) ∧
            ∀ i name, ¬ (w.Counted objects requested i name ∧ w'.Vacant i name) →
              t.property? (.object i) name = w'.property? (.object i) name := by
  refine ⟨fun sent r t runs => (sendsAtMost_loadCounts objects relations).length_le runs,
    fun none_ => runs_loadCounts_nil known none_ relations, ?_⟩
  intro o id others m requested answer q first keys model request accepted
  obtain ⟨counts, same, rfl⟩ := Build.call_withCount_eq_ok request.filled request.names accepted
  obtain ⟨base, new⟩ := request.new
  refine ⟨counts, _, same, rfl, Value.once_distinct _, ?_⟩
  intro f n w' rows value passed runner while_ bear told
  have some_ : w.identifiers objects ≠ [] := by simp [World.identifiers, first]
  have written := m.compile_withIds counts (Value.distinct_ne_nil some_)
  obtain ⟨compiled, -⟩ := Sql.Statement.checked_eq_ok_iff.mp passed
  have statement : f = m.countStatement counts (Value.distinct (w.identifiers objects)) :=
    Except.ok.inj (compiled.symm.trans written)
  have relation : ∀ name, (∃ r ∈ requested, name = Build.countName r.1) ↔
      name ∈ counts.map fun c => Build.countName c.1 := by
    intro name
    have names : counts.map (fun c => Build.countName c.1) = requested.map fun r => Build.countName r.1 := by
      have mapped := congrArg (List.map Build.countName) same
      rwa [List.map_map, List.map_map] at mapped
    rw [names]
    simp [eq_comm]
  have plain : ∀ c ∈ counts, ¬ " AS ".toList <:+: ' ' :: (Build.countName c.1).toList := by
    intro c there
    have listed : c.1 ∈ requested.map (·.1) := same ▸ List.mem_map_of_mem there
    obtain ⟨r, member, own⟩ := List.mem_map.mp listed
    exact own ▸ request.plain r member
  obtain ⟨t, runs, sets⟩ := @runs_loadCounts _ rely _ _ _ _ _ _ _ _ _ _ _ _ _ value known first
    (fun p there => Env.isKey_of_isKey (Env.areKeys_iff.mp keys _ (List.mem_map_of_mem there))) model
    (Build.countingQuery_eq new accepted keys) (aliases_withIds m _ plain) passed runner while_ bear
    (fun i id there name listed => by
      obtain ⟨r, member, rfl⟩ := (relation name).mpr listed
      exact told i id there r member)
  have sets : World.Sets (fun i name => .int (value i name)) (w.Counted objects requested) w' t :=
    sets.congr fun i name => and_congr_right fun _ => (relation name).symm
  refine ⟨statement, t, runs, sets, ?_, fun i name same => sets.property? same⟩
  rintro i name counted free
  obtain ⟨r, -, rfl⟩ := counted.2
  exact sets.property?_countName counted free

/-- Authors with all of their posts. -/
def writer : Model :=
  { plainPost with
    id := 1
    name := "Author"
    key := "Author"
    ancestry := [.model 1, .root]
    namedTable := .text "authors"
    fields := [⟨"id", ⟨.any, true⟩, some .null⟩]
    declared := [("posts", 1, ⟨.direct [("kind", .text "has_many"), ("model", .model 0),
      ("foreign_key", .text "author_id"), ("local_key", .text "id")], [], none, []⟩)] }

/-- Two authors, and one between them who is not saved. -/
def writers : World Unit where
  toEnv := { plainEnv with
    catalog := ⟨#[plainPost, writer]⟩
    objects := #[⟨1, [("id", .int 7)], [], [], none⟩, ⟨1, [("id", .null)], [], [], none⟩,
      ⟨1, [("id", .int 8)], [], [], none⟩] }
  tagMaps := #[]
  connections := [("default", 0)]
  warnings := []
  rest := ()

def countedWriters : List Value := [.object 0, .null, .object 1, .object 2, .object 0]

def postCount : Value × Fragment :=
  (.text "posts", .plain "SELECT COUNT(*) FROM posts WHERE posts.author_id = authors.id")

theorem known_countedWriters : writers.Known countedWriters := by
  have there (i : ObjectId) {e : Entity} {v : Value} (own : writers.object? i = some e)
      (id : e.fields.lookup "id" = some v) : Value.object i = .null ∨ ∃ j e v, Value.object i = .object j ∧
        writers.object? j = some e ∧ e.fields.lookup "id" = some v := .inr ⟨i, e, v, rfl, own, id⟩
  intro o member
  simp only [countedWriters, List.mem_cons, List.not_mem_nil, or_false] at member
  obtain rfl | rfl | rfl | rfl | rfl := member
  · exact there 0 rfl rfl
  · exact .inl rfl
  · exact there 1 rfl rfl
  · exact there 2 rfl rfl
  · exact there 0 rfl rfl

def postCounts : Fragment :=
  ⟨.ofList ("SELECT authors.id, (SELECT COUNT(*) FROM posts WHERE posts.author_id = authors.id) ".toList ++
    "AS posts_count FROM authors WHERE authors.id IN (?, ?)".toList), [.int 7, .int 8]⟩

set_option maxRecDepth 2000 in
theorem checked_postCounts : (writer.withIds (writer.identifiers.counting [postCount])
    [.int 7, .int 8]).statement.checked "rows" = .ok postCounts :=
  Sql.Statement.checked_eq_ok_iff.mpr ⟨by rfl, Guard.checkStatement_ofList _ (by decide +kernel)
    (by decide +kernel)⟩

theorem accepted_postCount : writers.call (.mk "with_count" [.list [.text "posts"]] []) writer.identifiers =
    .ok .self (writer.identifiers.counting [postCount]) := by
  rfl

/-- Of two authors the one in the answer has two posts and the other one none; the one without an
identifier is left alone. -/
theorem author_seven_has_two_posts : ∃ t : World Unit,
    Runs Eq (loadCounts countedWriters (.list [.text "posts"])) writers
      [(⟨0, postCounts.text, postCounts.values⟩, .ok [[("id", .int 7), ("posts_count", .int 2)]])] (.ok ()) t ∧
    t.property? (.object 0) "posts_count" = .ok (some (.int 2)) ∧
    t.property? (.object 2) "posts_count" = .ok (some (.int 0)) ∧
    t.property? (.object 1) "posts_count" = .ok none := by
  have same : Build.countName (.text "posts") = "posts_count" := by rfl
  have two : writers.identified countedWriters =
      [(.object 0, .int 7), (.object 2, .int 8), (.object 0, .int 7)] := by rfl
  obtain ⟨-, -, counting⟩ := @counting_sets_numbers_of_each_object Unit Eq _ _ known_countedWriters
    (.list [.text "posts"])
  have request : writers.Counts writer (.list [.text "posts"]) [(.text "posts", .null)] := by
    refine ⟨.list [.text "posts"], Env.filled_texts _ ["posts"], ?_, _, rfl⟩
    rw [List.forall_mem_singleton, same]
    decide
  have bear : Row.Identified [[("id", .int 7), ("posts_count", .int 2)]] :=
    ⟨List.forall_mem_singleton.mpr ⟨.int 7, rfl, rfl⟩, List.pairwise_singleton _ _⟩
  have told : ∀ i id, (Value.object i, id) ∈ writers.identified countedWriters →
      ∀ r ∈ [(Value.text "posts", Value.null)],
      (Row.valueOf [[("id", .int 7), ("posts_count", .int 2)]] id (Build.countName r.1)).number =
        .ok (if i = 0 then 2 else 0) := by
    intro i id there
    rw [List.forall_mem_singleton, same]
    rw [two] at there
    simp only [List.mem_cons, List.not_mem_nil, or_false, Prod.mk.injEq, Value.object.injEq] at there
    obtain ⟨rfl, rfl⟩ | ⟨rfl, rfl⟩ | ⟨rfl, rfl⟩ := there
    · rfl
    · rfl
    · rfl
  have free (i : ObjectId) {e : Entity} (own : writers.object? i = some e)
      (field : e.fields.lookup "posts_count" = none) (model : writers.modelOf? e = some writer) :
      writers.Vacant i "posts_count" := ⟨⟨e, own, field, by rw [model]; decide⟩, by decide⟩
  obtain ⟨counts, ids, -, rfl, -, sets⟩ := @counting _ _ _ writer _ _ _ two rfl rfl request accepted_postCount
  obtain ⟨-, t, runs, -, set, unset⟩ := @sets _ _ _ _ (fun i _ => if i = 0 then 2 else 0) checked_postCounts rfl
    rfl bear told
  refine ⟨t, runs, ?_, ?_, ?_⟩
  · exact set 0 _ ⟨⟨.int 7, by simp [two]⟩, _, .head _, same.symm⟩ (free 0 rfl rfl rfl)
  · exact set 2 _ ⟨⟨.int 8, by simp [two]⟩, _, .head _, same.symm⟩ (free 2 rfl rfl rfl)
  · refine (unset 1 _ fun counted => ?_).trans rfl
    obtain ⟨⟨⟨id, there⟩, -⟩, -⟩ := counted
    simp [two] at there

end Deed

end Relata
