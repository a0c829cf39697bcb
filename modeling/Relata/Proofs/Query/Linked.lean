import Relata.Loading.Eager
import Relata.Proofs.Query.Narrowed

/-!
The query for one chunk of keys. It begins with the tests and joins that link the related rows to
the keys; behind these tests come the conditions of the calls recorded on the relation and of the
refinement asked for. Main statement: that is all there is to it, and what comes behind the tests is
what the same calls put into a new query on the related model.
-/

namespace Relata

open Sql (Clause Join Junction Select Test)

/-- What links related rows to keys: columns, each with the values it may hold, and joins. -/
structure Linkage where
  columns : List (String × List Value)
  joins : List Join

/-- The tests that the columns hold such values. -/
def Linkage.tests (l : Linkage) : List Test :=
  l.columns.map fun (column, values) => .among false column values

namespace Descriptor

/-- Whether only the row with the extreme value of a column is kept of the rows of one parent. -/
def picksOne (d : Descriptor) : Bool :=
  match d.kind with
  | .hasOne | .hasMany => d.column.any (!·.isEmpty)
  | .morphOneOfMany => true
  | _ => false

/-- The columns of the related rows that link them to their parent, if no other table does. -/
def linkColumns (d : Descriptor) : List String :=
  match d.kind with
  | .hasOne | .hasMany => [written d.foreignKey]
  | .belongsTo => [written d.ownerKey]
  | .morphOne | .morphMany | .morphOneOfMany => [written d.typeColumn, written d.idColumn]
  | _ => []

/-- The test that keeps the row with the extreme value, if the relation picks one. -/
def extremeTests (d : Descriptor) (related : Model) : List Test :=
  if d.picksOne then
    [.raw (extremeCondition related.table (written d.column) (d.aggregate.getD .max) d.linkColumns
      related.softDeletes) [] "where_raw"]
  else []

end Descriptor

namespace Env

/-- What links the rows of a relation to keys of parents of the class `parent`. -/
def linkage (env : Env) (d : Descriptor) (parent related : Model) (keys : List Value) :
    Except Error Linkage :=
  let name := Descriptor.written
  match d.kind with
  | .hasOne | .hasMany => .ok ⟨[(name d.foreignKey, keys)], []⟩
  | .belongsTo => .ok ⟨[(name d.ownerKey, keys)], []⟩
  | .morphOne | .morphMany | .morphOneOfMany => do
    let tags ← env.tags.possibleTags parent
    return ⟨[(name d.typeColumn, tags), (name d.idColumn, keys)], []⟩
  | .belongsToMany =>
    let pivot := name d.table
    .ok ⟨[(s!"{pivot}.{name d.foreignPivotKey}", keys)],
      [⟨.inner, pivot, s!"{related.table}.{name d.relatedKey}", "=",
        s!"{pivot}.{name d.relatedPivotKey}"⟩]⟩
  | .hasOneThrough | .hasManyThrough => do
    let between := (← env.throughModel d).table
    return ⟨[(s!"{between}.{name d.firstKey}", keys)],
      [⟨.inner, between, s!"{related.table}.{name d.secondKey}", "=",
        s!"{between}.{name d.secondLocalKey}"⟩]⟩
  | .morphTo => .error .badType

/-- What the calls recorded on a relation and a refinement of it do to a query. -/
def refining (env : Env) (d : Descriptor) (callback : Value) : Build Unit := do
  discard (env.chain d.constraints)
  Build.refineIfGiven env.call callback

end Env

/-- The refinement asked for on a path, null if there is none. -/
def Loader.callbackFor (self : Loader) (path : String) : Value :=
  (Value.lookup? (.text path) self.callbacks).getD .null

/-- A new query on a model selects all of its rows. -/
theorem Model.extended_of_query {m : Model} {q : Query} (h : m.query = .ok q) :
    (Query.blank m.source .null).Extended [] [] q := by
  unfold Model.query at h
  dsimp only at h
  split at h
  · obtain rfl := Except.ok.inj h
    exact .refl _
  · obtain ⟨u, run⟩ := Build.ok_of_finish h
    have narrows := Build.narrows_with_ (J := fun _ => False) _ u q run
    obtain ⟨-, own, none, adds⟩ := narrows
    obtain ⟨after, run', extended, -⟩ := adds _ (.refl _)
    obtain rfl : own = [] := List.eq_nil_iff_forall_not_mem.mpr none
    rw [run] at run'
    cases run'
    exact extended

namespace Build

/-- A step that ends well links rows by the tests and joins, and does no more than that. -/
def Links (step : Build Unit) (tests : List Test) (joins : List Join) : Prop :=
  ∀ q u after, step q = .ok u after →
    q.Extended (tests.map (.leaf .and)) joins after ∧ after.Beside q

namespace Links

variable {α : Type} {x y : Build Unit} {tests others : List Test} {joins more : List Join}

theorem seq (hx : Links x tests joins) (hy : Links y others more) :
    Links (do x; y) (tests ++ others) (joins ++ more) := by
  intro q u after run
  obtain ⟨v, between, first, second⟩ := ok_of_bind run
  obtain ⟨extended, beside⟩ := hx q v between first
  obtain ⟨extended', beside'⟩ := hy between u after second
  refine ⟨?_, beside'.trans beside⟩
  rw [List.map_append]
  exact extended.trans extended'

theorem nothing : Links (pure ()) [] [] := by
  intro q u after run
  cases run
  exact ⟨.refl q, .refl q⟩

theorem failed {e : Error} : Links (throw e) tests joins := by
  intro q u after run
  cases run

theorem steady_bind {x : Build α} {f : α → Build Unit} (hx : Steady x)
    (h : ∀ a, Links (f a) tests joins) : Links (x >>= f) tests joins := by
  obtain ⟨r, rfl⟩ := hx
  cases r with
  | ok a => exact h a
  | error e => exact failed

theorem reading {f : Query → Build Unit} (h : ∀ q, Links (f q) tests joins) :
    Links (get >>= f) tests joins :=
  fun q u after run => h q q u after run

theorem forM {f : α → Build PUnit} {items : List α} (h : ∀ x, Links (f x) [] []) :
    Links (items.forM f) [] [] := by
  induction items with
  | nil => exact nothing
  | cons x rest ih => exact (h x).seq ih

/-- A change of what is selected. -/
theorem selecting {f : Select → Select} (frame : ∀ s, (f s).frame = s.frame)
    (conditions : ∀ s, (f s).conditions = s.conditions) (joins : ∀ s, (f s).joins = s.joins)
    (trashed : ∀ s, (f s).trashed = s.trashed) : Links (modifySelect f) [] [] := by
  intro q u after run
  cases run
  have source := congrArg Select.source (frame q.select)
  have table := congrArg Select.table (frame q.select)
  refine ⟨⟨?_, ?_, frame _, rfl⟩, ⟨source, table, trashed _, rfl⟩⟩
  · simpa using conditions q.select
  · simpa using joins q.select

end Links

theorem links_addCondition (t : Test) : Links (addCondition (.leaf .and t)) [t] [] := by
  intro q u after run
  cases run
  exact ⟨⟨rfl, (List.append_nil _).symm, rfl, rfl⟩, ⟨rfl, rfl, rfl, rfl⟩⟩

theorem links_keyIn (column : String) (keys : List Value) :
    Links (keyIn column keys) [.among false column keys] [] :=
  links_addCondition (.among false column keys)

theorem links_addRaw (text context : String) :
    Links (addRaw .conditions .and (.text text) .null context) [.raw text [] context] [] := by
  intro q u after run
  obtain ⟨items, between, first, second⟩ := ok_of_bind run
  cases first
  obtain ⟨c, middle, made, added⟩ := ok_of_bind second
  obtain ⟨raw, rfl⟩ := ok_of_ofExcept made
  obtain ⟨s, hs, rfl⟩ := Sql.Clause.raw_eq_ok raw
  obtain rfl := Value.text.inj hs
  exact links_addCondition _ _ _ _ added

/-- The row with the extreme value is kept if the relation picks one. -/
theorem links_extreme (d : Descriptor) (related : Model) :
    Links (if d.picksOne then onlyExtreme d related d.linkColumns else pure ())
      (d.extremeTests related) [] := by
  split
  · rename_i one
    rw [Descriptor.extremeTests, if_pos one]
    exact links_addRaw _ _
  · rename_i several
    rw [Descriptor.extremeTests, if_neg several]
    exact .nothing

theorem links_select {values : List Value} : Links (select values) [] [] := by
  unfold select
  exact .selecting (fun _ => rfl) (fun _ => rfl) (fun _ => rfl) (fun _ => rfl)

theorem links_join {table : Value} {first operator second : String} :
    Links (join .inner table (.text first) (.text operator) (.text second)) []
      [⟨.inner, table.shown, first, operator, second⟩] := by
  intro q u after run
  cases table with
  | text t =>
    cases run
    exact ⟨⟨(List.append_nil _).symm, rfl, rfl, rfl⟩, ⟨rfl, rfl, rfl, rfl⟩⟩
  | _ => cases run

theorem links_setPivotSource {table label : Value} : Links (setPivotSource table label) [] [] := by
  refine .reading fun q => ?_
  split
  · exact .steady_bind steady_checkNames fun _ =>
      .selecting (fun _ => rfl) (fun _ => rfl) (fun _ => rfl) (fun _ => rfl)
  · exact .nothing

theorem links_withPivot {columns : List Value} : Links (withPivot columns) [] [] := by
  refine .forM fun column => .reading fun q => ?_
  split
  · exact .nothing
  · split
    · unfold selectPivot
      exact .selecting (fun _ => rfl) (fun _ => rfl) (fun _ => rfl) (fun _ => rfl)
    · exact .nothing

/-- The keys are linked as the kind of the relation says. -/
theorem linkKeys_eq_ok {env : Env} {d : Descriptor} {parent related : Model} {keys : List Value}
    {tagKeys : Bool} {q : Query} {u : Unit} {after : Query}
    (run : linkKeys env d parent related keys tagKeys q = .ok u after) :
    ∃ l, env.linkage d parent related keys = .ok l ∧
      q.Extended ((l.tests ++ d.extremeTests related).map (.leaf .and)) l.joins after ∧
      after.Beside q := by
  unfold linkKeys at run
  dsimp only at run
  cases kind : d.kind with
  | hasOne | hasMany =>
    have one : d.picksOne = d.column.any (!·.isEmpty) := by rw [Descriptor.picksOne, kind]
    have columns : d.linkColumns = [Descriptor.written d.foreignKey] := by
      rw [Descriptor.linkColumns, kind]
    rw [kind] at run
    dsimp only at run
    rw [← one, ← columns] at run
    refine ⟨⟨[_], []⟩, by rw [Env.linkage, kind], ?_⟩
    exact ((links_keyIn _ keys).seq (links_extreme d related)) q u after run
  | belongsTo =>
    have several : d.extremeTests related = [] := by
      simp [Descriptor.extremeTests, Descriptor.picksOne, kind]
    rw [kind] at run
    refine ⟨⟨[_], []⟩, by rw [Env.linkage, kind], ?_⟩
    rw [several]
    exact links_keyIn _ keys q u after run
  | morphOne | morphMany | morphOneOfMany =>
    have one : d.picksOne = (d.kind == .morphOneOfMany) := by
      rw [Descriptor.picksOne, kind]
      rfl
    have columns : d.linkColumns =
        [Descriptor.written d.typeColumn, Descriptor.written d.idColumn] := by
      rw [Descriptor.linkColumns, kind]
    rw [← one, ← columns, kind] at run
    obtain ⟨tags, between, first, run⟩ := ok_of_bind run
    obtain ⟨possible, rfl⟩ := ok_of_ofExcept first
    refine ⟨⟨[_, _], []⟩, by rw [Env.linkage, kind, possible]; rfl, ?_⟩
    exact ((links_keyIn _ tags).seq ((links_keyIn _ keys).seq (links_extreme d related))) q u
      after run
  | belongsToMany =>
    have several : d.extremeTests related = [] := by
      simp [Descriptor.extremeTests, Descriptor.picksOne, kind]
    rw [kind] at run
    refine ⟨⟨[_], [_]⟩, by rw [Env.linkage, kind], ?_⟩
    rw [several]
    exact (links_select.seq (links_join.seq ((links_keyIn _ keys).seq
      (links_setPivotSource.seq links_withPivot)))) q u after run
  | hasOneThrough | hasManyThrough =>
    have several : d.extremeTests related = [] := by
      simp [Descriptor.extremeTests, Descriptor.picksOne, kind]
    rw [kind] at run
    obtain ⟨through, between, first, run⟩ := ok_of_bind run
    obtain ⟨found, rfl⟩ := ok_of_ofExcept first
    refine ⟨⟨[_], [_]⟩, by rw [Env.linkage, kind, found]; rfl, ?_⟩
    rw [several]
    exact (links_select.seq (links_join.seq (links_keyIn _ keys))) q u after run
  | morphTo =>
    rw [kind] at run
    cases run

theorem links_restrictColumns {env : Env} {d : Descriptor} {table : String} {columns : Value} :
    Links (restrictColumns env d table columns) [] [] := by
  unfold restrictColumns
  split
  · exact .steady_bind steady_itemsOf fun _ =>
      .selecting (fun _ => rfl) (fun _ => rfl) (fun _ => rfl) (fun _ => rfl)
  · exact .nothing

end Build

namespace Loader

variable {self : Loader} {env : Env} {d : Descriptor} {parent : Model} {path : String}
  {keys : List Value} {q : Query} {J : Junction → Prop}

/-- A query refined by narrowing calls is what these leave of it. -/
theorem run_of_refined {after : Query} (narrowing : env.NarrowingCallback J (self.callbackFor path))
    (h : self.refined env q path = .ok after) :
    ∃ u, Build.refineIfGiven env.call (self.callbackFor path) q = .ok u after := by
  unfold refined at h
  unfold callbackFor at narrowing ⊢
  cases found : Value.lookup? (.text path) self.callbacks with
  | none =>
    rw [found] at h
    obtain rfl := Except.ok.inj h
    exact ⟨(), rfl⟩
  | some callback =>
    rw [found] at h narrowing
    cases narrowing with
    | none =>
      obtain rfl := Except.ok.inj h
      exact ⟨(), rfl⟩
    | @recipe calls answers own =>
      have narrows : Build.Narrows J (env.refine (.recipe calls answers))
          fun answer => ∀ other, answer ≠ .other other :=
        Build.narrows_refine_of_inner fun c hc =>
          Build.narrows_callUpTo Build.callDepth c (own c hc)
      dsimp only at h
      split at h
      · rename_i other end_ run
        exact absurd rfl ((narrows q _ _ run).1 other)
      · rename_i answer end_ _ run
        obtain rfl := Except.ok.inj h
        exact ⟨(), Build.ok_discard run⟩
      · cases h

/-- The query for a chunk is a new query on the related model with the tests and joins that link its
rows to the keys, the test for the extreme value if the relation picks one row, and then what the
calls recorded on the relation and the refinement add to any query on that model. -/
theorem chunkQuery_eq_ok (built : self.chunkQuery env d parent path keys = .ok q)
    (recorded : ∀ c ∈ d.constraints, env.NarrowingCall J c)
    (asked : env.NarrowingCallback J (self.callbackFor path)) :
    ∃ related base plain l, env.relatedModel d = .ok related ∧ related.query = .ok base ∧
      Build.finish base (env.refining d (self.callbackFor path)) = .ok plain ∧
      env.linkage d parent related keys = .ok l ∧
      (∀ c ∈ plain.select.conditions, J c.junction) ∧
      (Query.blank related.source .null).Extended
        ((l.tests ++ d.extremeTests related).map (.leaf .and) ++ plain.select.conditions)
        l.joins q ∧
      q.Beside plain := by
  obtain ⟨first, queried, refined⟩ := ok_of_bind built
  unfold Env.relationQuery at queried
  dsimp only at queried
  split at queried
  · cases queried
  · obtain ⟨related, hrelated, queried⟩ := ok_of_bind queried
    obtain ⟨base, hbase, queried⟩ := ok_of_bind queried
    obtain ⟨u, run⟩ := Build.ok_of_finish queried
    obtain ⟨_, linked, linking, run⟩ := Build.ok_of_bind run
    obtain ⟨_, constrained, recording, restricting⟩ := Build.ok_of_bind run
    obtain ⟨_, asking⟩ := run_of_refined asked refined
    obtain ⟨l, hl, extended, beside⟩ := Build.linkKeys_eq_ok linking
    obtain ⟨-, own, joined, adds⟩ := (Build.narrows_chain recorded).discard _ _ _ recording
    obtain ⟨same, beside'⟩ := Build.links_restrictColumns _ _ _ restricting
    obtain ⟨-, more, joined', adds'⟩ := Build.narrows_refineIfGiven asked _ _ _ asking
    -- The same calls, made on the new query that the linked one was made of.
    obtain ⟨half, run, half_own, half_beside⟩ := adds base beside.symm
    obtain ⟨plain, run', more_own, plain_beside⟩ := adds' half (half_beside.trans beside'.symm)
    have whole : Build.finish base (env.refining d (self.callbackFor path)) = .ok plain := by
      have both : env.refining d (self.callbackFor path) base = .ok _ plain :=
        Build.bind_eq_ok run run'
      rw [Build.finish, EStateM.run, both]
    have new := Model.extended_of_query hbase
    have plain_own : plain.select.conditions = own ++ more :=
      (new.trans (half_own.trans more_own)).conditions
    refine ⟨related, base, plain, l, hrelated, hbase, whole, hl, ?_, ?_, plain_beside.symm⟩
    · intro c hc
      rw [plain_own] at hc
      exact (List.mem_append.mp hc).elim (joined c) (joined' c)
    · obtain ⟨_, again, constrained_own, _⟩ := adds linked (.refl linked)
      obtain ⟨_, again', refined_own, _⟩ := adds' first (.refl first)
      rw [recording] at again
      rw [asking] at again'
      cases again
      cases again'
      rw [plain_own]
      simpa using new.trans (extended.trans (constrained_own.trans (same.trans refined_own)))

end Loader

end Relata
