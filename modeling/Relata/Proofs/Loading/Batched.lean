import Relata.Proofs.Loading.Made
import Relata.Proofs.Loading.Matching
import Relata.Proofs.Process.Comes
import Relata.Proofs.Query.Values

/-!
Loading a relation on many objects at once gives each of them what it would be given alone. The
runner is taken to answer each statement of the batch with the rows of a table that bear one of its
keys, in the order of the table; each row becomes an object that keeps its key. Then the objects
attached to a parent are made of the rows that bear the key of that parent, in the order of the
table: whatever the chunk size, whatever the other parents, and however often a key comes up.
-/

namespace Relata

open Sql (Statement Fragment)
open World (Grows)

namespace Deed

variable {τ : Type} {α β : Type} {answers : Request → Except Error (List Row)}
  {R : World τ → World τ → Prop} {w w' : World τ}

/-- A deed made of the pieces of loading comes to a result, over changes that `R` allows. -/
theorem Made.comes (refl : ∀ w, R w w) (trans : ∀ {a b c}, R a b → R b c → R a c) {x : Deed τ α}
    (h : Made R x) (w : World τ) : ∃ r w', Act.Comes answers x w r w' ∧ R w w' := by
  induction h generalizing w with
  | ofExcept r => exact ⟨r, w, .ofExcept r w, refl w⟩
  | bind _ _ ihx ihf =>
    obtain ⟨r, w', hx, hw⟩ := ihx w
    cases r with
    | error e => exact ⟨_, w', hx.bind_error _, hw⟩
    | ok a =>
      obtain ⟨r, w'', hf, hw'⟩ := ihf a w'
      exact ⟨r, w'', hx.bind hf, trans hw hw'⟩
  | attempt _ ih =>
    obtain ⟨r, w', hx, hw⟩ := ih w
    exact ⟨_, w', hx.attempt, hw⟩
  | getsExcept f => exact ⟨_, w, .getsExcept f w, refl w⟩
  | modifyGet f h => exact ⟨_, _, .modifyGet f w, h w⟩
  | ask r h => exact ⟨_, w, .ask r w, refl w⟩

/-- Whatever such a deed comes to, the world has grown. -/
theorem Made.grows {x : Deed τ α} (h : Made Grows x) {r : Except Error α}
    (c : Act.Comes answers x w r w') : w.Grows w' := by
  obtain ⟨r', w'', c', grows⟩ : ∃ r' w'', Act.Comes answers x w r' w'' ∧ w.Grows w'' :=
    h.comes World.Grows.refl World.Grows.trans w
  obtain ⟨-, rfl⟩ := c.unique c'
  exact grows

theorem comes_execute {connection : Value} {n : Nat} {sql : String} {params : List Value}
    {rows : List Row} (runner : w.runner connection = .ok n)
    (answered : answers ⟨n, sql, params⟩ = .ok rows) :
    Act.Comes answers (execute connection sql params) w (.ok rows) w :=
  Act.Comes.bind (.getsExcept_ok _ runner) (.ask_ok answered w)

theorem comes_adopt (answers : Request → Except Error (List Row)) (members : List ObjectId)
    (w : World τ) :
    ∃ c w', Act.Comes answers (adopt members) w (.ok c) w' ∧ w.Grows w' := by
  have comes : Act.Comes answers (adopt members) w _ _ := .modifyGet _ w
  exact ⟨_, _, comes, (made_adopt members).grows comes⟩

end Deed

namespace Deed

variable {τ : Type} {answers : Request → Except Error (List Row)} {w : World τ}

/-- Changing an object that is there leaves the other ones. -/
theorem comes_modifyEntity (answers : Request → Except Error (List Row)) (id : ObjectId)
    (f : Entity → Entity) (w : World τ) :
    ∃ w', Act.Comes answers (modifyEntity (.object id) f) w (.ok ()) w' ∧
      (∀ e, w.object? id = some e → w'.object? id = some (f e)) ∧
      ∀ other, other ≠ id → w'.object? other = w.object? other := by
  refine ⟨_, .modify _ w, fun e there => ?_, fun other apart => ?_⟩
  · simpa [Env.object?, Array.getElem?_modify] using ⟨e, there, rfl⟩
  · simp [Env.object?, Array.getElem?_modify, Ne.symm apart]

/-- Setting a relation on objects one after the other: each comes to hold a value that was given
for it, and the other objects stay as they are. -/
theorem comes_setRelations (answers : Request → Except Error (List Row)) {slot : Value}
    (self : slot.same slot = true) (pairs : List (ObjectId × Value)) (w : World τ)
    (there : ∀ p ∈ pairs, ∃ e, w.object? p.1 = some e) :
    ∃ w', Act.Comes answers ((pairs.map fun p => (Value.object p.1, p.2)).forM fun (o, v) =>
        modifyEntity o (·.setRelation slot v)) w (.ok ()) w' ∧
      (∀ id, id ∉ pairs.map (·.1) → w'.object? id = w.object? id) ∧
      ∀ id ∈ pairs.map (·.1), ∃ e v, w'.object? id = some e ∧ e.value? slot = some v ∧
        (id, v) ∈ pairs := by
  -- An object may be listed more than once; the value that is set last stays.
  induction pairs generalizing w with
  | nil => exact ⟨w, .pure _ _, fun _ _ => rfl, by simp⟩
  | cons p pairs ih =>
    obtain ⟨id, v⟩ := p
    obtain ⟨w₁, comes₁, changed, others⟩ :=
      comes_modifyEntity answers id (·.setRelation slot v) w
    have there₁ : ∀ p ∈ pairs, ∃ e, w₁.object? p.1 = some e := by
      intro p hp
      obtain ⟨e, he⟩ := there p (by simp [hp])
      by_cases same : p.1 = id
      · exact ⟨_, same ▸ changed e (same ▸ he)⟩
      · exact ⟨e, (others p.1 same).trans he⟩
    obtain ⟨w₂, comes₂, kept, held⟩ := ih w₁ there₁
    refine ⟨w₂, comes₁.bind comes₂, fun other apart => ?_, fun other among => ?_⟩
    · simp only [List.map_cons, List.mem_cons, not_or] at apart
      rw [kept other apart.2, others other apart.1]
    · by_cases later : other ∈ pairs.map (·.1)
      · obtain ⟨e, v', he, hv, given⟩ := held other later
        exact ⟨e, v', he, hv, by simp [given]⟩
      · obtain rfl : other = id := by simpa [later] using among
        obtain ⟨e, he⟩ := there (other, v) (by simp)
        exact ⟨_, v, (kept other later).trans (changed e he), Entity.value?_setRelation self e v,
          by simp⟩

theorem comes_beginLoading (answers : Request → Except Error (List Row)) (slot : Value)
    (ids : List ObjectId) (w : World τ) :
    ∃ w', Act.Comes answers ((ids.map Value.object).forM fun o =>
      modifyEntity o (·.beginLoading slot)) w (.ok ()) w' ∧ w.Grows w' := by
  refine Act.Comes.forM World.Grows.refl World.Grows.trans fun o ho s _ => ?_
  obtain ⟨id, -, rfl⟩ := List.mem_map.mp ho
  obtain ⟨t, comes, -⟩ := comes_modifyEntity answers id (·.beginLoading slot) s
  exact ⟨t, comes, (made_modifyEntity _ (Entity.keepsColumns_beginLoading slot)).grows comes⟩

/-- Marking what has been loaded may fail; either way the objects stay as they are. -/
theorem comes_mark (answers : Request → Except Error (List Row)) (registry slot : Value)
    (objects : List Value) (w : World τ) :
    ∃ r w', Act.Comes answers (do
        let registry ← Act.ofExcept (registryId registry)
        markObjects registry objects [.ok slot]) w r w' ∧
      w.Grows w' ∧ w'.objects = w.objects :=
  Made.comes (R := fun a b => a.Grows b ∧ b.objects = a.objects) (fun w => ⟨.refl w, rfl⟩)
    (fun h h' => ⟨h.1.trans h'.1, h'.2.trans h.2⟩)
    ((Made.ofExcept _).bind fun _ =>
      made_markObjects (fun w _ => ⟨.of_registries w _, rfl⟩) _) w

end Deed

namespace Query

variable {τ : Type} {answers : Request → Except Error (List Row)} {w : World τ}

theorem comes_hydrate {q : Query} {row : Row} {e : Entity}
    (made : q.entity w.toLookup row = .ok e) :
    ∃ o w', Act.Comes answers (q.hydrate row) w (.ok o) w' ∧ w.Grows w' ∧ w'.Holds o e := by
  refine ⟨_, _, Act.Comes.bind (.getsExcept_ok _ made) (.modifyGet _ w), .of_push w e,
    World.holds_of_object? ?_⟩
  simp [Env.object?]

/-- A key and an object that a row was turned into. -/
def IsMade (key : Row → Value) (made : Row → Entity) (w : World τ) (row : Row)
    (p : Value × ObjectId) : Prop := p.1 = key row ∧ w.Holds p.2 (made row)

theorem IsMade.later {key : Row → Value} {made : Row → Entity} {w w' : World τ} {row : Row}
    {p : Value × ObjectId} (grows : w.Grows w') (h : IsMade key made w row p) :
    IsMade key made w' row p := ⟨h.1, h.2.later grows⟩

theorem map_fst_of_isMade {key : Row → Value} {made : Row → Entity} {rows : List Row}
    {found : List (Value × ObjectId)} (h : List.Forall₂ (IsMade key made w) rows found) :
    found.map (·.1) = rows.map key := by
  induction h with
  | nil => rfl
  | cons here _ ih => rw [List.map_cons, List.map_cons, here.1, ih]

theorem isMade_zip {key : Row → Value} {made : Row → Entity} {rows : List Row}
    {members : List ObjectId} (h : List.Forall₂ (fun row o => w.Holds o (made row)) rows members) :
    List.Forall₂ (IsMade key made w) rows ((rows.map key).zip members) := by
  induction h with
  | nil => exact .nil
  | cons here _ ih => exact .cons ⟨rfl, here⟩ ih

/-- Fetching yields an object for each row that the runner answers, with the key taken off it. -/
theorem comes_fetch {load : LoadPaths τ}
    (loads : ∀ self objects paths, Deed.Made Grows (load self objects paths))
    {q : Query} {keyColumn registry : Value} {f : Fragment} {n : Nat} {rows : List Row}
    (passed : q.statement.checked "get" = .ok f)
    (runner : w.runner q.select.source.connection = .ok n)
    (answered : answers ⟨n, f.text, f.values⟩ = .ok rows) {key : Row → Value} {bare : Row → Row}
    {made : Row → Entity}
    (split : ∀ row ∈ rows, splitKey keyColumn row = .ok (key row, bare row))
    (hydrated : ∀ row ∈ rows, q.entity w.toLookup (bare row) = .ok (made row))
    (nested : q.loads.paths ≠ [] → ∀ members w', w.Grows w' → ∃ w'',
      Act.Comes answers (load (.ofRequest q.loads registry false) members q.loads.paths) w' (.ok ())
        w'') :
    ∃ page w', Act.Comes answers (q.fetch load keyColumn registry) w (.ok page) w' ∧ w.Grows w' ∧
      List.Forall₂ (fun row o => w'.Holds o (made row)) rows page.members ∧
      page.keys = if keyColumn.isNull then [] else rows.map key := by
  obtain ⟨made', w₁, comes₁, grows₁, rows₁⟩ : ∃ made' w₁, Act.Comes answers
      (rows.mapM fun row => do
        let split ← Act.ofExcept (splitKey keyColumn row)
        return (split.1, ← q.hydrate split.2)) w (.ok made') w₁ ∧ w.Grows w₁ ∧
      List.Forall₂ (IsMade key made w₁) rows made' := by
    refine Act.Comes.mapM (Q := IsMade key made) World.Grows.refl World.Grows.trans IsMade.later
      fun row there s grows => ?_
    have here : q.entity s.toLookup (bare row) = .ok (made row) := by
      rw [grows.lookup]
      exact hydrated row there
    obtain ⟨o, t, comes, grows', holds⟩ := comes_hydrate here
    exact ⟨(key row, o), t, Act.Comes.bind (.ofExcept_ok (split row there) s)
      (comes.bind (.pure _ _)), grows', rfl, holds⟩
  -- The same ending, whether or not relations of the new objects are loaded before it.
  have finish (w₂ : World τ) (grows₂ : w₁.Grows w₂) : ∃ page w', Act.Comes answers (do
        let collection ← Deed.adopt (made'.map (·.2))
        return (⟨collection, made'.map (·.2),
          if keyColumn.isNull then [] else made'.map (·.1)⟩ : Fetched))
      w₂ (.ok page) w' ∧ w.Grows w' ∧
      List.Forall₂ (fun row o => w'.Holds o (made row)) rows page.members ∧
      page.keys = if keyColumn.isNull then [] else rows.map key := by
    obtain ⟨c, w₃, comes₃, grows₃⟩ := Deed.comes_adopt answers (made'.map (·.2)) w₂
    refine ⟨_, w₃, comes₃.bind (.pure _ _), (grows₁.trans grows₂).trans grows₃, ?_, ?_⟩
    · exact List.forall₂_map_right_iff.mpr
        (rows₁.imp fun row p h => h.2.later (grows₂.trans grows₃))
    · rw [map_fst_of_isMade rows₁]
  have start {r : Except Error Fetched} {w' : World τ} (rest : Act.Comes answers _ w₁ r w') :
      Act.Comes answers (q.fetch load keyColumn registry) w r w' :=
    Act.Comes.bind (.ofExcept_ok passed w)
      (Act.Comes.bind (Deed.comes_execute runner answered) (comes₁.bind rest))
  by_cases more : (!q.loads.paths.isEmpty && !(made'.map (·.2)).isEmpty) = true
  · obtain ⟨w₂, comes₂⟩ := nested (by simp_all) ((made'.map (·.2)).map .object) w₁ grows₁
    obtain ⟨page, w', comes₃, done⟩ := finish w₂ ((loads _ _ _).grows comes₂)
    refine ⟨page, w', start ?_, done⟩
    dsimp only
    rw [if_pos more]
    exact comes₂.bind comes₃
  · obtain ⟨page, w', comes₃, done⟩ := finish w₁ (.refl w₁)
    refine ⟨page, w', start ?_, done⟩
    dsimp only
    rw [if_neg more]
    exact comes₃

end Query

namespace Descriptor

/-- The column of fetched rows that holds the key of their parent. -/
def keyColumn (d : Descriptor) : String := d.relatedColumn.getD (Loader.tagColumn d)

def rowKey (d : Descriptor) (row : Row) : Value := (row.lookup d.keyColumn).getD .null

/-- The row as it becomes an object: a tag is taken off it. -/
def bareRow (d : Descriptor) (row : Row) : Row :=
  match d.relatedColumn with
  | none => row.filter (·.1 != Loader.tagColumn d)
  | some _ => row

end Descriptor

namespace Loader

variable {τ : Type} {answers : Request → Except Error (List Row)} {w : World τ}

theorem comes_keysMustHash {values : List Value} (hash : ∀ v ∈ values, w.isKey v = true) :
    Act.Comes answers (keysMustHash values) w (.ok ()) w := by
  have keys : w.areKeys values = true := Env.areKeys_iff.mpr hash
  refine Act.Comes.bind (.gets _ w) ?_
  rw [keys]
  exact .pure _ _

theorem comes_properties {α : Type} {xs : List α} {object : α → Value} {values : List Value}
    {name : String}
    (reads : List.Forall₂ (fun x v => w.propertyOrNull (object x) name = .ok v) xs values) :
    Act.Comes answers (xs.mapM fun x => Deed.propertyOrNull (object x) name) w (.ok values) w :=
  .mapM_same (reads.imp fun _ _ h => .getsExcept_ok _ h)

/-- The key that a row bears among others can be a key as they can. -/
theorem key_of_mem_bearing {keyOf : Row → Value} {table : List Row} {keys : List Value}
    (hash : ∀ k ∈ keys, w.Key k) {row : Row} (there : row ∈ bearing keyOf table keys) :
    w.Key (keyOf row) := by
  obtain ⟨k, hk, bears⟩ := exists_of_mem_bearing there
  exact fun w' grows => Env.isKey_of_same (hash k hk w' grows) bears

/-- The statement for some keys is answered with the rows of the table that bear one of them, each
row becomes the object it is to become, and the relations that are always loaded with such objects
load. -/
structure Served (answers : Request → Except Error (List Row)) (load : LoadPaths τ)
    (loader : Loader) (d : Descriptor) (parent : Model) (path : String) (table : List Row)
    (made : Row → Entity) (w : World τ) (keys : List Value) (q : Query) : Prop where
  query : loader.chunkQuery w.toEnv d parent path keys = .ok q
  answered : ∃ f n, q.statement.checked "get" = .ok f ∧
    w.runner q.select.source.connection = .ok n ∧
    answers ⟨n, f.text, f.values⟩ = .ok (bearing d.rowKey table keys)
  hydrated : ∀ row ∈ table, q.entity w.toLookup (d.bareRow row) = .ok (made row)
  nested : q.loads.paths ≠ [] → ∀ members w', w.Grows w' → ∃ w'', Act.Comes answers
    (load (.ofRequest q.loads loader.registry false) members q.loads.paths) w' (.ok ()) w''

/-- Nothing refines the relation: no calls recorded on it and no callback; the columns that it is
restricted to, if any, are a list. -/
structure Unrefined (loader : Loader) (d : Descriptor) (path : String) : Prop where
  constraints : d.constraints = []
  callback : Value.lookup? (.text path) loader.callbacks = none
  columns : loader.columnsFor path = .null ∨ ∃ items, loader.columnsFor path = .list items

theorem linkKeys_congr {env env' : Env} (same : env'.toLookup = env.toLookup) (d : Descriptor)
    (parent related : Model) (keys : List Value) (tagKeys : Bool) :
    Build.linkKeys env' d parent related keys tagKeys =
      Build.linkKeys env d parent related keys tagKeys := by
  unfold Build.linkKeys
  simp only [same]

/-- The statements of an unrefined relation depend on the models and aliases alone. -/
theorem Unrefined.chunkQuery_congr {loader : Loader} {d : Descriptor} {path : String}
    (free : Unrefined loader d path) {env env' : Env} (same : env'.toLookup = env.toLookup)
    (parent : Model) (keys : List Value) :
    loader.chunkQuery env' d parent path keys = loader.chunkQuery env d parent path keys := by
  have restricted (table : String) :
      Build.restrictColumns env' d table (loader.columnsFor path) =
        Build.restrictColumns env d table (loader.columnsFor path) := by
    obtain null | ⟨items, list⟩ := free.columns
    · simp only [null, Build.restrictColumns, Env.truthy, Env.opened]
    · simp only [list, Build.restrictColumns, Env.truthy, Env.opened]
  have unchained (env : Env) : env.chain [] = pure .self := by
    rw [Env.chain, Build.chain, List.foldlM_nil]
  have query : env'.relationQuery d parent keys (loader.columnsFor path) true =
      env.relationQuery d parent keys (loader.columnsFor path) true := by
    simp only [Env.relationQuery, same, linkKeys_congr same, restricted, free.constraints,
      unchained]
  simp only [chunkQuery, query, refined, free.callback]

theorem Served.later {load : LoadPaths τ} {loader : Loader} {d : Descriptor} {parent : Model}
    {path : String} {table : List Row} {made : Row → Entity} {keys : List Value} {q : Query}
    (served : Served answers load loader d parent path table made w keys q)
    (free : Unrefined loader d path) {w' : World τ} (grows : w.Grows w') :
    Served answers load loader d parent path table made w' keys q where
  query := (free.chunkQuery_congr grows.lookup parent keys).trans served.query
  answered := by
    obtain ⟨f, n, passed, runner, answered⟩ := served.answered
    exact ⟨f, n, passed, World.runner_later grows runner, answered⟩
  hydrated row there := grows.lookup ▸ served.hydrated row there
  nested more members w'' grows' := served.nested more members w'' (grows.trans grows')

/-- Becoming an object leaves the key of a row: it is read off the object where it is matched. -/
def KeepsKeys (d : Descriptor) (l : Lookup) (table : List Row) (made : Row → Entity) : Prop :=
  ∀ column, d.relatedColumn = some column → ∀ row ∈ table,
    (∃ m, l.catalog.model? (made row).model = some m ∧ m.Plain column) ∧
      (made row).column column = d.rowKey row

/-- The keys of rows are read off the objects that were made of them. -/
theorem comes_relatedKeys {d : Descriptor} {column : String} {table rows : List Row}
    {made : Row → Entity} {members : List ObjectId} (kept : KeepsKeys d w.toLookup table made)
    (matched : d.relatedColumn = some column) (among : ∀ row ∈ rows, row ∈ table)
    (holds : List.Forall₂ (fun row o => w.Holds o (made row)) rows members) :
    Act.Comes answers (members.mapM fun o => Deed.propertyOrNull (.object o) column) w
      (.ok (rows.map d.rowKey)) w := by
  refine comes_properties (List.forall₂_map_right_iff.mpr (List.Forall₂.flip ?_))
  refine ((List.forall₂_and_left _ _).mpr ⟨among, holds⟩).imp ?_
  rintro row o ⟨there, holds⟩
  obtain ⟨⟨m, known, plain⟩, same⟩ := kept column matched row there
  have read := holds.propertyOrNull known plain
  rwa [same] at read

theorem comes_fetchChunk {load : LoadPaths τ}
    (loads : ∀ self objects paths, Deed.Made Grows (load self objects paths)) {loader : Loader}
    {d : Descriptor} {parent : Model} {path : String} {table : List Row} {made : Row → Entity}
    {keys : List Value} {q : Query}
    (served : Served answers load loader d parent path table made w keys q)
    (kept : KeepsKeys d w.toLookup table made) (hash : ∀ k ∈ keys, w.Key k) :
    ∃ page w', Act.Comes answers (fetchChunk load loader d parent path keys) w (.ok page) w' ∧
      w.Grows w' ∧
        List.Forall₂ (Query.IsMade d.rowKey made w') (bearing d.rowKey table keys) page := by
  obtain ⟨f, n, passed, runner, answered⟩ := served.answered
  have hydrated : ∀ row ∈ bearing d.rowKey table keys,
      q.entity w.toLookup (d.bareRow row) = .ok (made row) :=
    fun row there => served.hydrated row (mem_of_mem_bearing there)
  have hashed {w' : World τ} (grows : w.Grows w') :
      ∀ k ∈ (bearing d.rowKey table keys).map d.rowKey, w'.isKey k = true :=
    List.forall_mem_map.mpr fun row there => key_of_mem_bearing hash there w' grows
  -- A tag is taken off the rows that bring it along; the others show their key as objects.
  cases matched : d.relatedColumn with
  | none =>
    have split : ∀ row ∈ bearing d.rowKey table keys,
        Query.splitKey (.text (tagColumn d)) row = .ok (d.rowKey row, d.bareRow row) := by
      intro row _
      simp [Query.splitKey, Descriptor.rowKey, Descriptor.keyColumn, Descriptor.bareRow, matched]
    obtain ⟨page, w₁, comes, grows, rows, keysRead⟩ :=
      Query.comes_fetch loads passed runner answered split hydrated served.nested
    refine ⟨page.keys.zip page.members, w₁, ?_, grows, ?_⟩
    · unfold fetchChunk
      refine Act.Comes.bind (.getsExcept_ok _ served.query) ?_
      rw [matched]
      refine comes.bind (Act.Comes.bind (comes_keysMustHash ?_) (.pure _ _))
      rw [keysRead]
      exact hashed grows
    · rw [keysRead]
      exact Query.isMade_zip rows
  | some column =>
    have split : ∀ row ∈ bearing d.rowKey table keys,
        Query.splitKey .null row = .ok (.null, d.bareRow row) := by
      intro row _
      simp [Query.splitKey, Descriptor.bareRow, matched]
    obtain ⟨page, w₁, comes, grows, rows, -⟩ :=
      Query.comes_fetch loads passed runner answered split hydrated served.nested
    refine ⟨((bearing d.rowKey table keys).map d.rowKey).zip page.members, w₁, ?_, grows,
      Query.isMade_zip rows⟩
    unfold fetchChunk
    refine Act.Comes.bind (.getsExcept_ok _ served.query) ?_
    rw [matched]
    have kept : KeepsKeys d w₁.toLookup table made := grows.lookup ▸ kept
    have member : ∀ row ∈ bearing d.rowKey table keys, row ∈ table := fun _ => mem_of_mem_bearing
    refine comes.bind ((comes_relatedKeys kept matched member rows).bind ?_)
    exact Act.Comes.bind (comes_keysMustHash (hashed grows)) (.pure _ _)

/-- What is attached to a parent for some rows: objects made of them, all or the first one. -/
def Attached (d : Descriptor) (made : Row → Entity) (w : World τ) (rows : List Row) (v : Value) :
    Prop :=
  ∃ objects : List ObjectId, List.Forall₂ (fun row o => w.Holds o (made row)) rows objects ∧
    v = if d.kind.isSingle then (objects.map Value.object).headD .null
      else .list (objects.map .object)

theorem chunks_int {n : Int} (positive : 1 ≤ n) (keys : List Value) :
    chunks (.int n) keys = .ok (pieces (n.toNat - 1) keys) := by
  have nonzero : n ≠ 0 := by omega
  have nonneg : ¬ n < 0 := by omega
  simp [chunks, nonzero, nonneg]

/-- The values under a key, of pairs filed one after the other, are objects made of the rows that
bear the key. -/
theorem attached_under {made : Row → Entity} {key : Row → Value} {rows : List Row}
    {found : List (Value × ObjectId)} (pairs : List.Forall₂ (Query.IsMade key made w) rows found)
    (keys : ∀ row ∈ rows, (key row).isKey = true) {k : Value} (hk : k.isKey = true) :
    ∃ objects : List ObjectId,
      List.Forall₂ (fun row o => w.Holds o (made row)) (rows.filter fun row => k.same (key row))
        objects ∧
      Matches.under
          (found.foldl (fun (m : Matches) (e : Value × ObjectId) => m.add e.1 (.object e.2)) []) k =
        objects.map .object := by
  have own : ∀ e ∈ found, e.1.isKey = true := by
    intro e he
    have listed : e.1 ∈ rows.map key := Query.map_fst_of_isMade pairs ▸ List.mem_map_of_mem he
    obtain ⟨row, there, same⟩ := List.mem_map.mp listed
    exact same ▸ keys row there
  refine ⟨(found.filter (k.same ·.1)).map (·.2), ?_, ?_⟩
  · refine List.forall₂_map_right_iff.mpr (List.Forall₂.imp (fun row p h => h.2)
      (List.rel_filter (R := Query.IsMade key made w) ?_ pairs))
    intro row p h
    simp only [h.1]
  · rw [Matches.under_foldl_add hk own]
    simp [Matches.under, Value.lookup?]

section Batch

variable {load : LoadPaths τ}
  (loads : ∀ self objects paths, Deed.Made Grows (load self objects paths))
  {loader : Loader} {d : Descriptor} {parent : Model} {path : String} {table : List Row}
  {made : Row → Entity} (kept : KeepsKeys d w.toLookup table made)
include loads kept

/-- The pages of a batch hold the rows that the keys of each piece bear, piece after piece. -/
theorem comes_pages {chunks : List (List Value)} (hash : ∀ keys ∈ chunks, ∀ k ∈ keys, w.Key k)
    (served : ∀ keys ∈ chunks, ∀ w', w.Grows w' →
      ∃ q, Served answers load loader d parent path table made w' keys q) :
    ∃ pages w', Act.Comes answers
        (chunks.mapM fun keys => fetchChunk load loader d parent path keys) w (.ok pages) w' ∧
      w.Grows w' ∧ List.Forall₂ (Query.IsMade d.rowKey made w')
        (chunks.flatMap (bearing d.rowKey table)) pages.flatten := by
  obtain ⟨pages, w', comes, grows, rows⟩ := Act.Comes.mapM
    (Q := fun s keys page =>
      List.Forall₂ (Query.IsMade d.rowKey made s) (bearing d.rowKey table keys) page)
    World.Grows.refl World.Grows.trans
    (fun grows page => page.imp fun _ _ h => h.later grows)
    fun keys there s grows => by
      obtain ⟨q, served⟩ := served keys there s grows
      exact comes_fetchChunk loads served (grows.lookup ▸ kept)
        fun k hk => (hash keys there k hk).later grows
  refine ⟨pages, w', comes, grows, ?_⟩
  rw [List.flatMap_def]
  exact List.rel_flatten (List.forall₂_map_left_iff.mpr rows)

/-- Each parent of a batch comes to hold objects made of the rows that belong to its key. -/
theorem comes_fetchRelated {ids : List ObjectId} {key : ObjectId → Value}
    (reads : ∀ id ∈ ids, ∀ w', w.Grows w' →
      w'.propertyOrNull (.object id) (Descriptor.written d.parentAttribute) = .ok (key id))
    (hash : ∀ id ∈ ids, w.Key (key id)) {n : Int} (size : loader.chunkSize = .int n)
    (positive : 1 ≤ n)
    (served : ∀ keys ∈ pieces (n.toNat - 1) (distinctKeys (ids.map key)), ∀ w', w.Grows w' →
      ∃ q, Served answers load loader d parent path table made w' keys q) :
    ∃ values w', Act.Comes answers
        (fetchRelated load loader d parent path (ids.map .object)) w (.ok values) w' ∧
      w.Grows w' ∧ List.Forall₂
        (fun id v => Attached d made w' (belonging d.rowKey table (key id)) v) ids values := by
  have batch : ∀ k ∈ ids.map key, w.Key k := List.forall_mem_map.mpr hash
  have asked : ∀ keys ∈ pieces (n.toNat - 1) (distinctKeys (ids.map key)), ∀ k ∈ keys, w.Key k :=
    fun keys hkeys k hk => batch k (mem_of_mem_pieces hkeys hk)
  obtain ⟨pages, w₁, comes₁, grows₁, rows⟩ := comes_pages loads kept asked served
  obtain ⟨c, w₂, comes₂, grows₂⟩ := Deed.comes_adopt answers (pages.flatten.map (·.2)) w₁
  have grows := grows₁.trans grows₂
  have isKey {k : Value} (h : w.Key k) : k.isKey = true := Env.isKey_of_isKey (h w (.refl w))
  have borne : ∀ row ∈ (pieces (n.toNat - 1) (distinctKeys (ids.map key))).flatMap
      (bearing d.rowKey table), (d.rowKey row).isKey = true := by
    intro row hrow
    obtain ⟨keys, hkeys, hrow⟩ := List.mem_flatMap.mp hrow
    exact isKey (key_of_mem_bearing (asked keys hkeys) hrow)
  let found : Matches :=
    pages.flatten.foldl (fun m (e : Value × ObjectId) => m.add e.1 (.object e.2)) []
  let value (k : Value) : Value :=
    if d.kind.isSingle then (found.under k).headD .null else .list (found.under k)
  refine ⟨ids.map fun id => value (key id), w₂, ?_, grows, ?_⟩
  · unfold fetchRelated
    refine Act.Comes.bind (a := ids.map key) (comes_properties ?_)
      (Act.Comes.bind (comes_keysMustHash ?_) ?_)
    · refine List.forall₂_map_left_iff.mpr (List.forall₂_map_right_iff.mpr ?_)
      exact List.forall₂_same.mpr fun id there => reads id there w (.refl w)
    · exact fun k hk => batch k (List.mem_filter.mp hk).1 w (.refl w)
    rw [size, chunks_int positive]
    refine Act.Comes.bind (.ofExcept _ w)
      (comes₁.bind (Act.Comes.bind (comes₂.bind (.pure _ _)) ?_))
    refine .mapM_same (List.forall₂_map_left_iff.mpr (List.forall₂_map_right_iff.mpr ?_))
    exact List.forall₂_same.mpr fun id there =>
      Act.Comes.bind (.getsExcept_ok _ (reads id there w₂ grows)) (.pure _ _)
  · refine List.forall₂_map_right_iff.mpr (List.forall₂_same.mpr fun id there => ?_)
    have own := isKey (hash id there)
    obtain ⟨objects, matching, under⟩ := attached_under rows borne own
    rw [filter_pieces_distinctKeys own (fun k hk => isKey (batch k hk)) (List.mem_map_of_mem there)]
      at matching
    refine ⟨objects, matching.imp fun row o h => h.later grows₂, ?_⟩
    simp only [value, found, under]

/-- Fetched and set, the relation holds on each parent what is attached to it. Marking comes last;
it may fail, and leaves the objects as they are. -/
theorem comes_loadPending {ids : List ObjectId} {key : ObjectId → Value}
    (there : ∀ id ∈ ids, ∃ e, w.object? id = some e)
    (reads : ∀ id ∈ ids, ∀ w', w.Grows w' →
      w'.propertyOrNull (.object id) (Descriptor.written d.parentAttribute) = .ok (key id))
    (hash : ∀ id ∈ ids, w.Key (key id)) {n : Int} (size : loader.chunkSize = .int n)
    (positive : 1 ≤ n) (fixed : d.kind ≠ .morphTo)
    (served : ∀ keys ∈ pieces (n.toNat - 1) (distinctKeys (ids.map key)), ∀ w', w.Grows w' →
      ∃ q, Served answers load loader d parent path table made w' keys q)
    {slot : Value} (self : slot.same slot = true) :
    ∃ r w', Act.Comes answers
        (loadPending load loader d parent path slot (ids.map .object)) w r w' ∧ w.Grows w' ∧
      ∀ id ∈ ids, ∃ e v, w'.object? id = some e ∧ e.value? slot = some v ∧
        Attached d made w' (belonging d.rowKey table (key id)) v := by
  obtain ⟨w₁, comes₁, grows₁⟩ := Deed.comes_beginLoading answers slot ids w
  obtain ⟨values, w₂, comes₂, grows₂, attached⟩ := comes_fetchRelated loads
    (grows₁.lookup ▸ kept) (fun id hid w' grows => reads id hid w' (grows₁.trans grows))
    (fun id hid => (hash id hid).later grows₁) size positive
    fun keys hkeys w' grows => served keys hkeys w' (grows₁.trans grows)
  have pairs : (ids.map Value.object).zip values =
      (ids.zip values).map fun p => (Value.object p.1, p.2) := by
    rw [List.zip_map_left]
    rfl
  -- Fetching may have made objects, but the parents are still among them.
  have there₂ : ∀ p ∈ ids.zip values, ∃ e, w₂.object? p.1 = some e := by
    intro p hp
    obtain ⟨e, he⟩ := there p.1 (List.of_mem_zip hp).1
    obtain ⟨e', he', -⟩ := (grows₁.trans grows₂).object he
    exact ⟨e', he'⟩
  obtain ⟨w₃, comes₃, -, held⟩ := Deed.comes_setRelations answers self (ids.zip values) w₂ there₂
  have grows₃ : w₂.Grows w₃ := Deed.Made.grows
    (.forM fun _ => Deed.made_modifyEntity _ (Entity.keepsColumns_setRelation slot _)) comes₃
  obtain ⟨r, w₄, comes₄, grows₄, same⟩ :=
    Deed.comes_mark answers loader.registry slot (ids.map .object) w₃
  refine ⟨r, w₄, ?_, ((grows₁.trans grows₂).trans grows₃).trans grows₄, fun id hid => ?_⟩
  · unfold loadPending
    rw [if_neg (by simpa using fixed)]
    exact comes₁.bind (comes₂.attempt.bind ((pairs ▸ comes₃).bind comes₄))
  · have listed : id ∈ (ids.zip values).map (·.1) := by
      rwa [List.map_fst_zip (Nat.le_of_eq attached.length_eq)]
    obtain ⟨e, v, he, hv, given⟩ := held id listed
    obtain ⟨objects, matching, rfl⟩ := List.forall₂_zip attached given
    refine ⟨e, _, ?_, hv, objects, matching.imp fun row o h => h.later (grows₃.trans grows₄), rfl⟩
    simpa [Env.object?, same] using he

end Batch

/-- Parents of one class, with the relation that is to be loaded on them. -/
structure Parents (w : World τ) (ids : List ObjectId) (m : Model) (name : String) (d : Descriptor) :
    Prop where
  class_ : ∀ id ∈ ids, ∃ e, w.object? id = some e ∧ e.model = m.id
  known : w.catalog.model? m.id = some m
  relation : w.require m (.text name) = .ok d
  /-- The attribute that identifies related rows is read off the columns of a parent. -/
  plain : m.Plain (Descriptor.written d.parentAttribute)

/-- The key of a parent: its value of the attribute that identifies related rows. -/
def keyOf (w : World τ) (d : Descriptor) (id : ObjectId) : Value :=
  ((w.object? id).map (·.column (Descriptor.written d.parentAttribute))).getD .null

/-- The parents that a relation is fetched for: all, or those that do not hold it yet. -/
def pendingOf (loader : Loader) (w : World τ) (slot : Value) (ids : List ObjectId) :
    List ObjectId :=
  if loader.force then ids else ids.filter fun id => !((w.object? id).any (·.isLoaded slot))

theorem Parents.reads {ids : List ObjectId} {m : Model} {name : String} {d : Descriptor}
    (parents : Parents w ids m name d) {id : ObjectId} (there : id ∈ ids) {w' : World τ}
    (grows : w.Grows w') :
    w'.propertyOrNull (.object id) (Descriptor.written d.parentAttribute) = .ok (keyOf w d id) := by
  obtain ⟨e, he, model⟩ := parents.class_ id there
  have known : w'.catalog.model? e.model = some m := by
    rw [grows.lookup, model]
    exact parents.known
  have holds := (World.holds_of_object? he).later grows
  simpa [keyOf, he] using holds.propertyOrNull known parents.plain

theorem mem_pendingOf {loader : Loader} {slot : Value} {ids : List ObjectId} {id : ObjectId} :
    id ∈ pendingOf loader w slot ids ↔ id ∈ ids ∧
      (loader.force = true ∨ (w.object? id).any (·.isLoaded slot) = false) := by
  unfold pendingOf
  split <;> simp_all

theorem Parents.modelOfValue?_headD {ids : List ObjectId} {m : Model} {name : String}
    {d : Descriptor} (parents : Parents w ids m name d) (some_ : ids ≠ []) :
    w.modelOfValue? ((ids.map Value.object).headD .null) = some m := by
  cases ids with
  | nil => exact absurd rfl some_
  | cons id rest =>
    obtain ⟨e, he, model⟩ := parents.class_ id (by simp)
    simpa [Env.modelOfValue?, he, Env.modelOf?, model] using parents.known

theorem map_object_pendingOf {loader : Loader} {slot : Value} {ids : List ObjectId} :
    (if loader.force then ids.map Value.object
      else (ids.map Value.object).filter fun o => !w.isLoadedOn slot o) =
      (pendingOf loader w slot ids).map .object := by
  unfold pendingOf
  split
  · rfl
  · rw [List.filter_map]
    rfl

/-- Objects of one class make one group. -/
theorem byClass_objects {env : Env} {ids : List ObjectId} {m : Model}
    (class_ : ∀ id ∈ ids, ∃ e, env.object? id = some e ∧ e.model = m.id) (some_ : ids ≠ []) :
    byClass env (ids.map .object) = [(.model m.id, ids.map .object)] := by
  have present : (ids.map Value.object).filter (!·.isNull) = ids.map .object := by
    simp [List.filter_eq_self, Value.isNull]
  unfold byClass
  rw [present]
  cases ids with
  | nil => exact absurd rfl some_
  | cons id rest =>
    have own {id : ObjectId} (there : ∃ e, env.object? id = some e ∧ e.model = m.id) :
        classKey env (.object id) = .model m.id := by
      obtain ⟨e, he, model⟩ := there
      simp [classKey, he, model]
    rw [List.map_cons, List.foldl_cons]
    simp only [addByClass, own (class_ id (by simp)), List.any_nil, Bool.false_eq_true, if_false,
      List.nil_append]
    -- The first object opens the group, and the others join it behind the members so far.
    suffices ∀ members : List Value, List.foldl (addByClass env) [(ClassKey.model m.id, members)]
        (rest.map Value.object) = [(ClassKey.model m.id, members ++ rest.map .object)] from
      this [.object id]
    have others : ∀ id ∈ rest, ∃ e, env.object? id = some e ∧ e.model = m.id :=
      fun id hid => class_ id (by simp [hid])
    clear class_ present
    induction rest with
    | nil => simp
    | cons id rest ih =>
      intro members
      have next := ih (by simp) (fun id hid => others id (by simp [hid])) (members ++ [.object id])
      simpa [addByClass, own (others id (by simp))] using next

/-- What is attached in a world to those parents that the relation is fetched for. -/
def Loaded (loader : Loader) (d : Descriptor) (table : List Row) (made : Row → Entity)
    (slot : Value) (ids : List ObjectId) (w w' : World τ) : Prop :=
  ∀ id ∈ pendingOf loader w slot ids, ∃ e v, w'.object? id = some e ∧ e.value? slot = some v ∧
    Attached d made w' (belonging d.rowKey table (keyOf w d id)) v

/-- What the batch of a relation asks for is served. -/
def BatchServed (answers : Request → Except Error (List Row)) (load : LoadPaths τ) (loader : Loader)
    (d : Descriptor) (parent : Model) (path : String) (table : List Row) (made : Row → Entity)
    (w : World τ) (ids : List ObjectId) (n : Int) : Prop :=
  ∀ keys ∈ pieces (n.toNat - 1)
      (distinctKeys ((pendingOf loader w (.text path) ids).map (keyOf w d))),
    ∃ q, Served answers load loader d parent path table made w keys q

section Load

variable {load : LoadPaths τ}
  (loads : ∀ self objects paths, Deed.Made Grows (load self objects paths))
  {loader : Loader} {d : Descriptor} {m : Model} {name : String} {table : List Row}
  {made : Row → Entity} {ids : List ObjectId}
  (parents : Parents w ids m name d) (kept : KeepsKeys d w.toLookup table made)
  (hash : ∀ id ∈ ids, w.Key (keyOf w d id)) {n : Int} (size : loader.chunkSize = .int n)
  (positive : 1 ≤ n) (fixed : d.kind ≠ .morphTo) (free : Unrefined loader d name)
include parents kept hash size positive fixed free

include loads in
theorem comes_loadRelation (some_ : ids ≠ [])
    (served : BatchServed answers load loader d m name table made w ids n) :
    ∃ r w', Act.Comes answers
        (loadRelation load loader (ids.map .object) name ⟨"", false⟩) w r w' ∧
      Loaded loader d table made (.text name) ids w w' := by
  have among {id : ObjectId} (there : id ∈ pendingOf loader w (.text name) ids) : id ∈ ids :=
    (mem_pendingOf.mp there).1
  have start {r : Except Error (Option Descriptor)} {w' : World τ}
      (rest : Act.Comes answers (do
        if !((pendingOf loader w (.text name) ids).map Value.object).isEmpty then
          loadPending load loader d m name (.text name)
            ((pendingOf loader w (.text name) ids).map .object)
        return some d) w r w') :
      Act.Comes answers (loadRelation load loader (ids.map .object) name ⟨"", false⟩) w r w' := by
    unfold loadRelation
    refine Act.Comes.bind (a := some (m, d)) (.getsExcept_ok _ ?_) (Act.Comes.bind (.gets _ w) ?_)
    · simp only [described, parents.modelOfValue?_headD some_, Bool.false_eq_true, if_false,
        parents.relation]
      rfl
    · dsimp only
      rw [map_object_pendingOf]
      simpa using rest
  have self : (Value.text name).same (.text name) = true := by simp [Value.same]
  by_cases none : pendingOf loader w (.text name) ids = []
  · refine ⟨.ok (some d), w, start ?_, fun id hid => ?_⟩
    · simpa [none] using Act.Comes.pure (some d) w
    · rw [none] at hid
      cases hid
  · obtain ⟨r, w', comes, -, attached⟩ := comes_loadPending loads kept
      (fun id hid => (parents.class_ id (among hid)).imp fun _ h => h.1)
      (fun id hid w' grows => parents.reads (among hid) grows)
      (fun id hid => hash id (among hid)) size positive fixed
      (fun keys hkeys w' grows => (served keys hkeys).imp fun _ h => h.later free grows)
      self
    obtain ⟨r', comes'⟩ := comes.bind_any fun _ => ⟨_, Act.Comes.pure (some d) w'⟩
    refine ⟨r', w', start ?_, attached⟩
    rw [if_pos (by simpa using none)]
    exact comes'

end Load

/-- A name that is a path by itself: it has no point, and no colon with columns behind it. -/
structure IsSegment (name : String) : Prop where
  bare : ':' ∉ name.toList
  single : '.' ∉ name.toList

theorem IsSegment.parse {name : String} (h : IsSegment name) :
    RelationPath.parse (.text name) = .ok (.text name, []) :=
  RelationPath.parse_of_bare h.bare

theorem IsSegment.group {name : String} (h : IsSegment name) :
    RelationPath.group [name] = [(name, [])] := by
  simp [RelationPath.group, RelationPath.addTo, RelationPath.withRest, RelationPath.head,
    Text.cutAt_of_not_mem h.single]

/-- Loading on objects just fetched, as it is done while a relation is loaded. -/
def loadNested : LoadPaths τ := fun loader objects paths =>
  loadBelow (depthLimit - 1) loader objects paths ⟨"", false⟩

theorem made_loadNested (loader : Loader) (objects paths : List Value) :
    Deed.Made (τ := τ) Grows (loadNested loader objects paths) := made_loadBelow _ _ _ _ _

/-- Loading one relation on parents of one class comes to an end where each of them that it is
fetched for holds objects made of the rows that belong to its key: all of them in the order of the
table, or the first one or null. Nothing else of the batch shows in it: neither the chunk size nor
the other parents, nor how often a key comes up. -/
theorem load_attaches_belonging {w : World τ} {loader : Loader} {d : Descriptor} {m : Model}
    {name : String} {table : List Row} {made : Row → Entity} {ids : List ObjectId} {n : Int}
    (segment : IsSegment name) (parents : Parents w ids m name d)
    (kept : KeepsKeys d w.toLookup table made) (hash : ∀ id ∈ ids, w.Key (keyOf w d id))
    (size : loader.chunkSize = .int n) (positive : 1 ≤ n) (fixed : d.kind ≠ .morphTo)
    (free : Unrefined loader d name)
    (served : BatchServed answers loadNested loader d m name table made w ids n) :
    Loaded loader d table made (.text name) ids w
      (Act.leaves answers (load loader (ids.map .object) [.text name]) w) := by
  by_cases some_ : ids = []
  · subst some_
    intro id hid
    cases (mem_pendingOf.mp hid).1
  obtain ⟨r, w', comes, loaded⟩ :=
    comes_loadRelation made_loadNested parents kept hash size positive fixed free some_ served
  suffices ∃ r', Act.Comes answers (load loader (ids.map .object) [.text name]) w r' w' by
    obtain ⟨r', comes'⟩ := this
    rwa [comes'.leaves]
  have read : [Value.text name].mapM RelationPath.parse = .ok [(.text name, [])] := by
    simp [segment.parse, pure, Except.pure, bind, Except.bind]
  have group := byClass_objects parents.class_ some_
  have one {α : Type} (a : α) (f : α → Deed τ PUnit) : [a].forM f = f a := by
    simp [List.forM]
  show ∃ r', Act.Comes answers
    (loadBelow (depthLimit - 1 + 1) loader (ids.map .object) [.text name] ⟨"", false⟩) w r' w'
  rw [loadBelow, read]
  refine Act.Comes.bind_exists (.ofExcept _ w) (Act.Comes.bind_exists (.gets _ w) ?_)
  rw [group, one]
  refine Act.Comes.bind_exists (a := [name]) (.ofExcept_ok ?_ w) ?_
  · simp [segmented, pure, Except.pure, bind, Except.bind]
  · rw [segment.group, one]
    exact comes.bind_any fun found => ⟨.ok (), by cases found <;> exact .pure _ _⟩

/-- The relation of posts to their replies, as it is resolved. -/
def replyRelation : Descriptor :=
  { (default : Descriptor) with
    kind := .hasMany
    target := .model 0
    foreignKey := some "parent"
    localKey := some "id"
    pivotAlias := "pivot" }

/-- A post with its identifier. -/
def storedPost (id : Value) : Entity := ⟨0, [], [("id", id)], [], none⟩

/-- Two copies of one post, and one that has no identifier yet. -/
def threadWorld : World Unit where
  toEnv := { threadedEnv with
    objects := #[storedPost (.int 1), storedPost (.int 1), storedPost .null] }
  tagMaps := #[]
  connections := [("default", 0)]
  warnings := []
  rest := ()

def replyLoader : Loader := ⟨[], [], .null, false, .int 1⟩

/-- Replies to the first post, with one to another post between them. -/
def replyRows : List Row :=
  [[("id", .int 10), ("parent", .int 1)], [("id", .int 11), ("parent", .int 2)],
    [("id", .int 12), ("parent", .int 1)]]

def replyMade (row : Row) : Entity := ⟨0, [], row, [], none⟩

def replyAnswers (r : Request) : Except Error (List Row) :=
  .ok (bearing replyRelation.rowKey replyRows r.params)

theorem replies_attached :
    Loaded replyLoader replyRelation replyRows replyMade (.text "replies") [0, 1, 2] threadWorld
        (Act.leaves replyAnswers
          (load replyLoader [.object 0, .object 1, .object 2] [.text "replies"]) threadWorld) ∧
      belonging replyRelation.rowKey replyRows (keyOf threadWorld replyRelation 1) =
        [[("id", .int 10), ("parent", .int 1)], [("id", .int 12), ("parent", .int 1)]] ∧
      belonging replyRelation.rowKey replyRows (keyOf threadWorld replyRelation 2) = [] := by
  have parents : Parents threadWorld [0, 1, 2] threadedPost "replies" replyRelation := by
    refine ⟨?_, rfl, by rfl, ⟨by decide, by rfl⟩⟩
    simp [threadWorld, Env.object?, storedPost, threadedPost, plainPost]
  have kept : KeepsKeys replyRelation threadWorld.toLookup replyRows replyMade := by
    intro column h row _
    obtain rfl : "parent" = column := Option.some.inj h
    exact ⟨⟨threadedPost, rfl, ⟨by decide, by rfl⟩⟩, rfl⟩
  have hash : ∀ id ∈ [0, 1, 2], threadWorld.Key (keyOf threadWorld replyRelation id) := by
    intro id hid w' _
    simp only [List.mem_cons, List.not_mem_nil, or_false] at hid
    rcases hid with rfl | rfl | rfl <;> rfl
  have batch : pieces 0 (distinctKeys ((pendingOf replyLoader threadWorld (.text "replies")
      [0, 1, 2]).map (keyOf threadWorld replyRelation))) = [[.int 1]] := by
    rw [show distinctKeys _ = [Value.int 1] from rfl]
    simp [pieces]
  have served : BatchServed replyAnswers loadNested replyLoader replyRelation threadedPost "replies"
      replyRows replyMade threadWorld [0, 1, 2] 1 := by
    intro keys hkeys
    rw [show (1 : Int).toNat - 1 = 0 from rfl, batch, List.mem_singleton] at hkeys
    subst hkeys
    refine ⟨_, by rfl, ⟨⟨"SELECT * FROM posts WHERE parent IN (?)", [.int 1]⟩, 0, ?_, by rfl, rfl⟩,
      ?_, ?_⟩
    · refine Statement.checked_eq_ok_iff.mpr ⟨by rfl, Guard.checkStatement_ofList _ ?_ ?_⟩
      · decide +kernel
      · decide +kernel
    · intro row there
      simp only [replyRows, List.mem_cons, List.not_mem_nil, or_false] at there
      rcases there with rfl | rfl | rfl <;> rfl
    · exact fun more => absurd rfl more
  exact ⟨load_attaches_belonging ⟨by decide, by decide⟩ parents kept hash rfl (by decide)
    (by decide) ⟨rfl, rfl, .inl rfl⟩ served, rfl, rfl⟩

end Loader

end Relata
