import Relata.Proofs.Loading.Kin
import Relata.Proofs.Loading.Retained
import Relata.Proofs.Query.Linked
import Relata.Proofs.Query.Values

/-!
Loading relations on objects that lack them. If paths have one segment, the objects are of one class
and lack the relations, and the queries that fetch the relations ask for nothing further, then a load
goes the same way as fetching each relation once for all of the objects. Wherever it breaks off, the
relations before are loaded on all of the objects, and the others are as they were.
-/

namespace Relata

open Act (Meets Ends)

namespace RelationPath

/-- A path of one segment is a name. -/
theorem head_of_single {path : String} (h : '.' ∉ path.toList) : head path = (path, "") := by
  unfold head
  rw [Text.cutAt_of_not_mem h]
  simp

/-- Names, each given once, are groups of their own. -/
theorem group_of_single {paths : List String} (single : ∀ path ∈ paths, '.' ∉ path.toList)
    (once : paths.Nodup) : group paths = paths.map fun path => (path, []) := by
  suffices ∀ rest before : List String, paths = before ++ rest →
      rest.foldl addTo (before.map fun path => (path, [])) = paths.map fun path => (path, []) from
    this paths [] rfl
  intro rest
  induction rest with
  | nil => exact fun before whole => by rw [whole, List.append_nil]; rfl
  | cons path rest ih =>
    intro before whole
    have there : path ∈ paths := whole ▸ List.mem_append_right _ (.head _)
    have fresh : path ∉ before := fun old => by
      rw [whole] at once
      exact (List.nodup_append.mp once).2.2 path old path (.head _) rfl
    have new : addTo (before.map fun path => (path, [])) path =
        (before ++ [path]).map fun path => (path, []) := by
      rw [addTo_eq, head_of_single (single path there)]
      simp [fresh, withRest]
    rw [List.foldl_cons, new]
    exact ih _ (by rw [whole, List.append_assoc, List.singleton_append])

end RelationPath

namespace Loader

variable {τ : Type}

/-- Fetches a relation once for all of the objects. -/
def fetchOnce (load : LoadPaths τ) (self : Loader) (objects : List Value) (name : String) :
    Deed τ Unit := do
  match ← Act.getsExcept fun w => described w.toEnv false (objects.headD .null) name with
  | none => pure ()
  | some (m, d) => loadPending load self d m name (.text name) objects

/-- What fetching comes to once the relation has been looked up. -/
def fetchKnown (load : LoadPaths τ) (self : Loader) (objects : List Value) (name : String)
    (env : Env) : Deed τ Unit := do
  match ← Act.ofExcept (described env false (objects.headD .null) name) with
  | none => pure ()
  | some (m, d) => loadPending load self d m name (.text name) objects

theorem reads_fetchOnce (load : LoadPaths τ) (self : Loader) (objects : List Value) (name : String)
    (w : World τ) : (fetchOnce load self objects name).Reads
      (fetchKnown load self objects name w.toEnv) w :=
  (Act.Reads.getsExcept _ w).bind _

/-- One name of a load, on objects of one class. -/
def loadName (load : LoadPaths τ) (below : Descriptor → List Value → Deed τ Unit) (self : Loader)
    (objects : List Value) (at_ : Position) (name : String) (nested : List String) :
    Deed τ Unit := do
  match ← loadRelation load self objects name at_ with
  | none => pure ()
  | some d =>
    if !nested.isEmpty then
      let found ← children objects name
      if !found.isEmpty then below d found

theorem reads_loadName {load : LoadPaths τ} {below : Descriptor → List Value → Deed τ Unit}
    {self : Loader} (kept : self.force = false) {objects : List Value} (some_ : objects ≠ [])
    {w : World τ} {name : String}
    (lack : ∀ o ∈ objects, w.isLoadedOn (.text name) o = false) :
    (loadName load below self objects ⟨"", false⟩ name []).Reads
      (fetchKnown load self objects name w.toEnv) w := by
  have pending : objects.filter (!w.isLoadedOn (.text name) ·) = objects :=
    List.filter_eq_self.mpr fun o there => by simp [lack o there]
  have whole : ("" : String) ++ name = name := String.empty_append
  let look : World τ → Except Error (Option (Model × Descriptor)) := fun w =>
    described w.toEnv false (objects.headD .null) name
  unfold loadName fetchKnown loadRelation
  cases same : described w.toEnv false (objects.headD .null) name with
  | error e =>
    refine (((Act.Reads.getsExcept look w).bind _).bind _).trans ?_
    rw [show look w = .error e from same]
    exact .refl _ w
  | ok found =>
    refine ((Act.Reads.getsExcept_bind (s := w) (f := look) same _).bind _).trans ?_
    cases found with
    | none => exact .refl _ w
    | some found =>
      obtain ⟨m, d⟩ := found
      refine ((Act.Reads.gets_bind _ _ w).bind _).trans ?_
      simp only [kept, Bool.false_eq_true, if_false, pending, List.isEmpty_eq_false_iff.mpr some_,
        Bool.not_false, if_true, whole, bind_assoc, pure_bind, List.isEmpty_nil, Bool.not_true,
        bind_pure_unit]
      exact .refl _ w

/-- Objects of one class are one group. -/
theorem byClass_of_one {env : Env} {objects : List Value} {key : ClassKey} (some_ : objects ≠ [])
    (one : ∀ v ∈ objects, v.isNull = false ∧ classKey env v = key) :
    byClass env objects = [(key, objects)] := by
  have there : objects.filter (!·.isNull) = objects :=
    List.filter_eq_self.mpr fun v hv => by simp [(one v hv).1]
  obtain ⟨first, rest, rfl⟩ := List.exists_cons_of_ne_nil some_
  have joins : ∀ (rest before : List Value), (∀ v ∈ rest, classKey env v = key) →
      rest.foldl (addByClass env) [(key, before)] = [(key, before ++ rest)] := by
    intro rest
    induction rest with
    | nil => exact fun before _ => by rw [List.append_nil]; rfl
    | cons v rest ih =>
      intro before own
      have next : addByClass env [(key, before)] v = [(key, before ++ [v])] := by
        simp [addByClass, own v (.head _)]
      rw [List.foldl_cons, next, ih _ fun v hv => own v (.tail _ hv), List.append_assoc,
        List.singleton_append]
  have opens : addByClass env [] first = [(key, [first])] := by
    simp [addByClass, (one first (.head _)).2]
  rw [byClass, there, List.foldl_cons, opens,
    joins rest [first] fun v hv => (one v (.tail _ hv)).2]
  rfl

/-- Paths to be loaded, none of them nested, no columns left in them, and none given twice. -/
structure Names (paths : List String) : Prop where
  bare : ∀ path ∈ paths, ':' ∉ path.toList
  single : ∀ path ∈ paths, '.' ∉ path.toList
  once : paths.Nodup

variable {names : List String}

theorem mapM_parse_of_bare {paths : List String} (bare : ∀ path ∈ paths, ':' ∉ path.toList) :
    (paths.map Value.text).mapM RelationPath.parse =
      .ok (paths.map fun path => (.text path, [])) := by
  induction paths with
  | nil => rfl
  | cons path rest ih =>
    rw [List.map_cons, List.mapM_cons, RelationPath.parse_of_bare (bare path (.head _)),
      ih fun path there => bare path (.tail _ there)]
    rfl

theorem mapM_segmented (names : List String) :
    (names.map fun name => (Value.text name, ([] : List Value))).mapM (fun (path, _) => segmented path) =
      .ok names := by
  induction names with
  | nil => rfl
  | cons name rest ih =>
    rw [List.map_cons, List.mapM_cons, ih]
    rfl

/-- Paths without columns restrict nothing. -/
theorem columns_of_bare (paths : List String) (above : String) (columns : List (Value × Value)) :
    (paths.map fun path => (Value.text path, ([] : List Value))).foldl
      (fun columns (path, names) => if names.isEmpty then columns
        else Value.put columns (.text (above ++ path.shown)) (.list names)) columns = columns := by
  rw [List.foldl_map]
  induction paths with
  | nil => rfl
  | cons path rest ih => exact ih

/-- A load on objects of one class goes from one first segment to the next. -/
theorem reads_loadBelow_of_bare {paths : List String} (bare : ∀ path ∈ paths, ':' ∉ path.toList)
    {depth : Nat} {self : Loader} {objects : List Value} {at_ : Position} {key : ClassKey} {w : World τ}
    (some_ : objects ≠ []) (one : ∀ v ∈ objects, v.isNull = false ∧ classKey w.toEnv v = key) :
    (loadBelow (depth + 1) self objects (paths.map .text) at_).Reads
      ((RelationPath.group paths).forM fun g => loadName
        (fun loader objects paths => loadBelow depth loader objects paths ⟨"", false⟩)
        (fun d found => loadBelow depth self found (g.2.map .text)
          ⟨at_.above ++ g.1 ++ ".", d.kind == .morphTo⟩) self objects at_ g.1 g.2) w := by
  rw [loadBelow, mapM_parse_of_bare bare, Act.ofExcept_ok_bind]
  dsimp only
  refine (Act.Reads.gets_bind _ _ w).trans ?_
  have group (f : ClassKey × List Value → Deed τ PUnit) :
      [(key, objects)].forM f = f (key, objects) := bind_pure_unit
  rw [byClass_of_one some_ one, columns_of_bare, group, mapM_segmented, Act.ofExcept_ok_bind]
  exact .refl _ w

/-- A load of names on objects of one class goes from name to name. -/
theorem reads_loadBelow (h : Names names) {depth : Nat} {self : Loader} {objects : List Value}
    {key : ClassKey} {w : World τ} (some_ : objects ≠ [])
    (one : ∀ v ∈ objects, v.isNull = false ∧ classKey w.toEnv v = key) :
    (loadBelow (depth + 1) self objects (names.map .text) ⟨"", false⟩).Reads
      (names.forM fun name => loadName
        (fun loader objects paths => loadBelow depth loader objects paths ⟨"", false⟩)
        (fun d found => loadBelow depth self found ([].map .text)
          ⟨"" ++ name ++ ".", d.kind == .morphTo⟩) self objects ⟨"", false⟩ name []) w := by
  have reads := @reads_loadBelow_of_bare τ names h.bare depth self objects ⟨"", false⟩ key w some_ one
  rwa [RelationPath.group_of_single h.single h.once, List.forM_eq_forM, List.forM_map] at reads

/-- A load one level below the first, of what the rows that are fetched ask for. -/
def nested (loader : Loader) (objects paths : List Value) : Deed τ Unit :=
  loadBelow 399 loader objects paths ⟨"", false⟩

theorem tends_nested {M : Manner τ} (h : M.Loads) : M.Tends nested :=
  fun _ loader _ paths own => h.loadBelow 399 loader own paths _

theorem load_eq (loader : Loader) (objects paths : List Value) :
    (load loader objects paths : Deed τ Unit) =
      loadBelow (399 + 1) loader objects paths ⟨"", false⟩ := rfl

end Loader

namespace Scene

variable {τ : Type} {S : Scene τ} {pact : Pact (World τ)} {on : List ObjectId}
  {names done : List String} {name : String} {loader : Loader} {w : World τ}

/-- A relation is not loaded on an object to begin with. -/
def Lacks (S : Scene τ) (id : ObjectId) (name : String) : Prop :=
  S.start.isLoadedOn (.text name) (.object id) = false

/-- Some names are loaded on some of the objects, and the rest is as it was. -/
abbrev Stage (S : Scene τ) (on : List ObjectId) (done : List String) (w : World τ) : Prop :=
  S.Kin (fun id name => id ∈ on ∧ name ∈ done ∧ S.Lacks id name)
    (fun id name => id ∈ on ∧ name ∈ done) (· ∈ done) w

theorem stage_start (proper : S.Proper) : S.Stage [] [] S.start :=
  (Kin.start proper).weaken (fun _ _ absurd => absurd.elim)
    (fun _ _ own => absurd own.1 List.not_mem_nil) fun _ absurd => absurd.elim

/-- Before anything is loaded it makes no difference what it is to be loaded on. -/
theorem stage_none (h : S.Stage [] [] w) (on : List ObjectId) : S.Stage on [] w :=
  h.weaken (fun _ _ own => absurd own.1 List.not_mem_nil)
    (fun _ _ own => absurd own.2 List.not_mem_nil) fun _ => id

/-- A relation by one of the names, of one of the objects. -/
def HasRelation (S : Scene τ) (names : List String) (m : Model) (name : String) (d : Descriptor) :
    Prop :=
  name ∈ names ∧ (∃ id ∈ S.objects, S.start.modelOfValue? (.object id) = some m) ∧
    S.start.require m (.text name) = .ok d

/-- The queries that fetch the relations of objects ask for no relations in turn. -/
structure Flat (S : Scene τ) (loader : Loader) (names : List String) : Prop where
  chunk : ∀ m name d, S.HasRelation names m name d → ∀ env : Env,
    env.toLookup = S.start.toLookup → ∀ keys q,
      loader.chunkQuery env d m name keys = .ok q → q.loads.paths = []
  target : ∀ m name d, S.HasRelation names m name d → d.kind = .morphTo →
    ∀ v m', S.start.asModel v = .ok m' → ∀ env : Env, env.toLookup = S.start.toLookup → ∀ keys q,
      loader.targetQuery env d m' name keys = .ok q → q.loads.paths = []

/-- A load of names on some of the objects, which are of one class, beside others that leave the objects
alone. -/
structure Undertaken (S : Scene τ) (pact : Pact (World τ)) (on : List ObjectId)
    (names : List String) (loader : Loader) : Prop where
  proper : S.Proper
  guar : ∀ {w w' : World τ}, (∀ registry, w.SameFlights registry w') → pact.guar w w'
  rely : ∀ {w w' : World τ}, pact.rely w w' → S.Apart w w'
  waits : ∀ {done : List String} {w : World τ}, S.Stage on done w →
    (∃ name ∈ names, name ∉ done) → pact.waits w
  named : Loader.Names names
  some_ : on ≠ []
  among : ∀ id ∈ on, id ∈ S.objects
  class_ : ∃ m, ∀ id ∈ on, ∀ e, S.start.object? id = some e → e.model = m
  kept : loader.force = false
  given : Deed.registryId loader.registry = .ok S.registry
  flat : S.sole → S.Flat loader names

theorem Proper.inside (h : S.Proper) {id : ObjectId} (own : id ∈ S.objects) :
    id < S.start.objects.size := by
  obtain ⟨e, there, -⟩ := h.objects id own
  exact (Array.getElem?_eq_some_iff.mp there).1

theorem Kin.isLoadedOn {may must : ObjectId → String → Prop} {marked : String → Prop}
    (h : S.Kin may must marked w) (proper : S.Proper) {id : ObjectId} (own : id ∈ S.objects)
    (loaded : must id name) : w.isLoadedOn (.text name) (.object id) = true := by
  obtain ⟨e, there, -⟩ := proper.objects id own
  obtain ⟨e', later, kin⟩ := h.objects id own e there
  simp [Env.isLoadedOn, later, kin.loaded name loaded]

/-- What may not change is loaded as it was. -/
theorem Kin.isLoadedOn_eq {may must : ObjectId → String → Prop} {marked : String → Prop}
    (h : S.Kin may must marked w) (proper : S.Proper) {id : ObjectId} (own : id ∈ S.objects)
    (still : ¬ may id name) :
    w.isLoadedOn (.text name) (.object id) = S.start.isLoadedOn (.text name) (.object id) := by
  obtain ⟨e, there, -⟩ := proper.objects id own
  obtain ⟨e', later, kin⟩ := h.objects id own e there
  simp [Env.isLoadedOn, later, there, Entity.isLoaded, kin.values name still]

/-- What was loaded to begin with, and may not change, is loaded. -/
theorem Kin.loading {may must must' : ObjectId → String → Prop} {marked : String → Prop}
    (h : S.Kin may must marked w)
    (covered : ∀ id name, must' id name → must id name ∨ ¬ S.Lacks id name ∧ ¬ may id name) :
    S.Kin may must' marked w := by
  refine ⟨h.lookup, h.size, h.collections, fun id own e there => ?_, h.closed, h.registry, h.limit,
    h.marks⟩
  obtain ⟨e', later, kin⟩ := h.objects id own e there
  refine ⟨e', later, kin.model, kin.fields, kin.extra, kin.collection, kin.values, fun name due => ?_⟩
  rcases covered id name due with loaded | ⟨carried, still⟩
  · exact kin.loaded name loaded
  · rw [Entity.isLoaded, kin.values name still]
    simpa [Lacks, Env.isLoadedOn, there, Entity.isLoaded, Option.isSome_iff_ne_none] using carried

theorem Kin.modelOfValue? {may must : ObjectId → String → Prop} {marked : String → Prop}
    (h : S.Kin may must marked w) (proper : S.Proper) {id : ObjectId} (own : id ∈ S.objects) :
    w.modelOfValue? (.object id) = S.start.modelOfValue? (.object id) := by
  obtain ⟨e, there, -⟩ := proper.objects id own
  obtain ⟨e', later, kin⟩ := h.objects id own e there
  simp [Env.modelOfValue?, later, there, Env.modelOf?, kin.model, h.lookup]

namespace Undertaken

variable (h : S.Undertaken pact on names loader)
include h

/-- Fetching leaves the stage as it is; what it makes is new. -/
theorem upholds (more : ∃ name ∈ names, name ∉ done) :
    Manner.Upholds pact (S.Stage on done) fun n v =>
      ∃ id < n, S.start.objects.size ≤ id ∧ v = .object id where
  own_mono := fun le ⟨id, lt, own⟩ => ⟨id, lt.trans_le le, own⟩
  rely stage others := ⟨stage.apart (h.rely others), (h.rely others).size⟩
  waits stage := h.waits stage more
  extended {w e} stage bare := by
    refine ⟨h.guar fun _ => rfl, stage.extended bare, w.objects.size, ?_, stage.size, rfl⟩
    simp [World.extended]
  adopted stage _ fresh := by
    refine ⟨h.guar fun _ => rfl, stage.adopted fun id there => ?_⟩
    obtain ⟨_, -, new, same⟩ := fresh id there
    exact (Value.object.inj same) ▸ new
  warned warnings stage := ⟨h.guar fun _ => rfl, stage.warned warnings⟩

/-- Marking objects leaves all but marks as it is. -/
theorem ends_markObjects {may must : ObjectId → String → Prop} {marked : String → Prop}
    (kin : S.Kin may must marked w) {ids : List ObjectId} (among : ∀ id ∈ ids, id ∈ S.objects)
    {given : List String} (covered : ∀ name ∈ given, marked name) :
    Ends pact (Deed.markObjects S.registry (ids.map .object) (given.map fun n => .ok (.text n))) w
      fun r w' => r = .ok () ∧ S.Kin may must marked w' := by
  refine (Meets.forM (I := S.Kin may must marked) (E := fun _ _ => False) kin
    fun o there w kin => ?_).imp fun r w' ended => by cases r <;> simp_all
  obtain ⟨id, hid, rfl⟩ := List.mem_map.mp there
  obtain ⟨e, own, v, column, fixed⟩ := h.proper.objects id (among id hid)
  obtain ⟨e', later, kind⟩ := kin.objects id (among id hid) e own
  have reads : w.requireProperty (.object id) "id" = .ok v := by
    simp [Env.requireProperty, Env.property?, later, Env.propertyOf?, kind.fields, column, Bind.bind,
      Except.bind, Pure.pure, Except.pure]
  refine Meets.getsExcept_bind (fun id' found => ?_) fun _ absurd => by rw [reads] at absurd; cases absurd
  obtain rfl := Except.ok.inj (reads.symm.trans found)
  split
  · refine Meets.getsExcept_bind (fun key keyed => ?_) fun _ absurd => ?_
    · have limit : Marks.IsLimit (S.marks w).limit := kin.limit ▸ h.proper.limit
      have texts : (given.map fun n => (.ok (.text n) : Except Error Value)) =
          (given.map Value.text).map .ok := by rw [List.map_map]; rfl
      rw [texts]
      refine Meets.bind (Q := fun r w' => r = .ok (.ok ()) ∧ S.Kin may must marked w')
        (.modifyGet (h.guar (w.sameFlights_remarked S.registry _)) ?_) (fun outcome w' ended => ?_)
        fun _ _ absurd => nomatch absurd.1
      · refine ⟨congrArg Except.ok (Marks.mark_ok limit key _), kin.remarked (Marks.limit_mark _ _ _) ?_⟩
        intro row _ name there
        refine (Marks.marked_of_mark there).imp_right fun new => ?_
        obtain ⟨v, hv, same⟩ := List.any_eq_true.mp new
        obtain ⟨n, hn, rfl⟩ := List.mem_map.mp hv
        obtain rfl : name = n := by simpa [Value.same] using same
        exact covered name hn
      · obtain ⟨same, kin⟩ := ended
        obtain rfl := Except.ok.inj same
        exact .ofExcept kin
    · rw [fixed w.toEnv] at absurd
      cases absurd
  · exact .pure kin

/-- Setting a relation on objects one after the other. -/
theorem ends_setRelations {may must : ObjectId → String → Prop} {marked : String → Prop}
    {pairs : List (Value × Value)}
    (targets : ∀ p ∈ pairs, ∃ id ∈ S.objects, may id name ∧ p.1 = .object id)
    (kin : S.Kin may must marked w) :
    Ends pact (pairs.forM fun p => Deed.modifyEntity p.1 (·.setRelation (.text name) p.2)) w
      fun r w' => r = .ok () ∧ S.Kin may
        (fun id n => must id n ∨ .object id ∈ pairs.map (·.1) ∧ n = name) marked w' := by
  induction pairs generalizing must w with
  | nil => exact .pure ⟨rfl, kin.weaken (fun _ _ => id) (by simp) fun _ => id⟩
  | cons p rest ih =>
    obtain ⟨id, hid, own, same⟩ := targets p (.head _)
    obtain ⟨_, v⟩ := p
    obtain rfl : _ = Value.object id := same
    have first : Ends pact (Deed.modifyEntity (.object id) (·.setRelation (.text name) v)) w
        fun r w' => r = .ok () ∧ S.Kin may (fun i n => must i n ∨ i = id ∧ n = name) marked w' :=
      .modify (h.guar fun _ => rfl) ⟨rfl, kin.set own (h.proper.inside hid) v⟩
    refine first.bind (fun _ w' there => ?_) fun _ _ absurd => nomatch absurd.1
    refine (ih (fun p hp => targets p (.tail _ hp)) there.2).imp fun r w'' ended =>
      ⟨ended.1, ended.2.weaken (fun _ _ own => own) (fun i n loaded => ?_) fun _ own => own⟩
    rcases loaded with old | ⟨among, rfl⟩
    · exact .inl (.inl old)
    · rcases List.mem_cons.mp among with same | later
      · exact .inl (.inr ⟨Value.object.inj same, rfl⟩)
      · exact .inr ⟨later, rfl⟩

theorem keeps_modifyEntity (more : ∃ name ∈ names, name ∉ done) {n : Nat} {f : Entity → Entity}
    (same : ∀ {may must : String → Prop} {e e' : Entity}, e.Kin may must e' → e.Kin may must (f e'))
    (values : ∀ (e : Entity) name, (f e).value? (.text name) = e.value? (.text name))
    (id : ObjectId) : (Manner.upholding (h.upholds more)).Keeps n
      (Deed.modifyEntity (.object id) f) fun _ _ => True := by
  intro w stage le
  refine .modify (h.guar fun _ => rfl) (.of ?_ (by simpa [World.modified] using le) fun _ _ => trivial)
  exact stage.modified (fun _ _ _ kin => same kin) (fun _ _ _ loaded => loaded)
    fun _ e name v held => .inl (values e name ▸ held)

/-- What is changed on an object that the fetch has made leaves the stage as it is. -/
theorem keeps_modifyNew (more : ∃ name ∈ names, name ∉ done) {n : Nat} {v : Value}
    {f : Entity → Entity} (own : (Manner.upholding (h.upholds more)).own n v)
    (values : ∀ (e : Entity) name x, (f e).value? (.text name) = some x →
      e.value? (.text name) = some x ∨ ∀ y ∈ x.held, (Manner.upholding (h.upholds more)).own n y) :
    (Manner.upholding (h.upholds more)).Keeps n (Deed.modifyEntity v f) fun _ _ => True := by
  obtain ⟨id, lt, new, rfl⟩ := own
  intro w stage le
  refine .modify (h.guar fun _ => rfl) (.of ?_ (by simpa [World.modified] using le) fun _ _ => trivial)
  refine stage.modified (fun old => absurd (h.proper.inside old) (Nat.not_lt.mpr new))
    (fun _ _ _ loaded => loaded) fun _ e name x held => (values e name x held).imp_right ?_
  exact fun among y hy => (among y hy).imp fun _ own => ⟨own.1.trans_le le, own.2⟩

/-- Loads that fetching leads to, on objects that it has made, leave the stage as it is, unless they are
not to mark the rows of the objects. -/
theorem loads (more : ∃ name ∈ names, name ∉ done) (shared : ¬ S.sole) :
    (Manner.upholding (h.upholds more)).Loads where
  begin own name := h.keeps_modifyNew more own fun e n x held => by
    rw [Entity.value?_beginLoading] at held
    exact .inl held
  abandon own name := h.keeps_modifyNew more own fun e n x held => by
    rw [Entity.value?_abandonLoading] at held
    exact .inl held
  settle own _ among := Manner.settle _
    (fun own among name => h.keeps_modifyNew more own fun e n y held => by
      rw [Entity.value?_setRelation_text] at held
      split at held
      · exact .inr (Option.some.inj held ▸ among)
      · exact .inl held)
    (fun n registry objects given => Manner.markObjects _ (fun n row w stage le => by
      refine Meets.bind (Q := fun _ w' => S.Stage on done w' ∧ n ≤ w'.objects.size)
        (.modifyGet (h.guar (w.sameFlights_remarked registry _)) ?_)
        (fun outcome w' kept => .ofExcept (.of kept.1 kept.2 fun _ _ => trivial))
        fun _ _ kept => .of kept.1 kept.2 fun _ _ => trivial
      exact ⟨stage.apart (Scene.apart_marked shared w registry row given), le⟩) objects) own among
  children {n objects} own name w stage le := by
    refine Meets.bind Meets.mapM_reads (fun values w' there => ?_) fun _ _ there =>
      .of (there.1 ▸ stage) (there.1 ▸ le) fun _ absurd => by cases absurd
    obtain ⟨rfl, reads⟩ := there
    obtain ⟨-, only⟩ := reads values rfl
    refine Meets.gets_bind (.pure (.of stage le fun _ same y hy => ?_))
    obtain rfl := Except.ok.inj same
    obtain ⟨x, hx, held⟩ := List.mem_flatMap.mp hy
    obtain ⟨v, hv, loaded⟩ := only x hx
    obtain ⟨id, e, rfl, there, value⟩ := Loader.relationOf_eq_ok.mp loaded
    obtain ⟨_, -, new, same⟩ := own _ hv
    obtain rfl := Value.object.inj same
    have among := stage.closed _ e new there name x value
    rw [Env.heldBy_of_objects fun y hy => (among y hy).imp fun _ own => own.2.2] at held
    exact among y held

/-- The relation of the objects that is looked up in a later world is the one of their class. -/
theorem described {may must : ObjectId → String → Prop} {marked : String → Prop}
    (kin : S.Kin may must marked w) {found : Option (Model × Descriptor)}
    (known : Loader.described w.toEnv false ((on.map Value.object).headD .null) name = .ok found) :
    ∃ m d, found = some (m, d) ∧ w.require m (.text name) = .ok d ∧
      ∃ id ∈ S.objects, S.start.modelOfValue? (.object id) = some m := by
  obtain ⟨first, rest, rfl⟩ := List.exists_cons_of_ne_nil h.some_
  rw [List.map_cons, List.headD_cons, Loader.described] at known
  have same := kin.modelOfValue? h.proper (h.among first (.head _))
  cases model : w.modelOfValue? (.object first) with
  | none =>
    rw [model] at known
    cases known
  | some m =>
    simp only [model, Bool.false_eq_true, if_false] at known
    cases required : w.require m (.text name) with
    | error e =>
      rw [required] at known
      cases known
    | ok d =>
      rw [required] at known
      exact ⟨m, d, (Except.ok.inj known).symm, required, first, h.among first (.head _),
        same.symm.trans model⟩

/-- What is fetched leaves the stage as it is, with what it asks for in turn. -/
theorem fetches {load : LoadPaths τ} (tends : ∀ {M : Manner τ}, M.Loads → M.Tends load)
    (more : ∃ name ∈ names, name ∉ done) {m : Model} {d : Descriptor}
    (relation : S.HasRelation names m name d) :
    (Manner.upholding (h.upholds more)).Fetches load loader d m name := by
  by_cases sole : S.sole
  · have flat (q : Query) (none : q.loads.paths = []) :
        (Manner.upholding (h.upholds more)).Nests load loader.registry q := fun asks => absurd none asks
    refine ⟨fun w' stage' keys q built => flat q ?_,
      fun kind w₁ stage₁ v m' known w₂ stage₂ keys q built => flat q ?_⟩
    · exact (h.flat sole).chunk m name d relation w'.toEnv stage'.lookup keys q built
    · exact (h.flat sole).target m name d relation kind v m' (stage₁.lookup ▸ known) w₂.toEnv
        stage₂.lookup keys q built
  · exact (tends (h.loads more sole)).fetches

/-- Fetching one more relation for those of the objects that lack it: it is loaded on all of them, or
the stage is the one before. -/
theorem ends_loadPending {load : LoadPaths τ}
    (tends : ∀ {M : Manner τ}, M.Loads → M.Tends load) (stage : S.Stage on done w)
    (hname : name ∈ names) (fresh : name ∉ done) {m : Model} {d : Descriptor}
    (relation : S.HasRelation names m name d) {pending : List ObjectId}
    (lacking : ∀ id ∈ pending, id ∈ on ∧ S.Lacks id name)
    (others : ∀ id ∈ on, id ∈ pending ∨ ¬ S.Lacks id name) :
    Ends pact (Loader.loadPending load loader d m name (.text name) (pending.map .object)) w fun
      | .ok _ => S.Stage on (done ++ [name])
      | .error _ => S.Stage on done := by
  have more : ∃ name ∈ names, name ∉ done := ⟨name, hname, fresh⟩
  let M := Manner.upholding (h.upholds more)
  have begins : M.Keeps 0 ((pending.map Value.object).forM fun o =>
      Deed.modifyEntity o (·.beginLoading (.text name))) fun _ _ => True :=
    M.forM fun _ _ v there => by
      obtain ⟨id, -, rfl⟩ := List.mem_map.mp there
      exact h.keeps_modifyEntity more (fun kin => kin.beginLoading name)
        (fun e n => e.value?_beginLoading name n) id
  have abandons : M.Keeps 0 ((pending.map Value.object).forM fun o =>
      Deed.modifyEntity o (·.abandonLoading (.text name))) fun _ _ => True :=
    M.forM fun _ _ v there => by
      obtain ⟨id, -, rfl⟩ := List.mem_map.mp there
      exact h.keeps_modifyEntity more (fun kin => kin.abandonLoading name)
        (fun e n => e.value?_abandonLoading name n) id
  refine Meets.bind (begins w stage (Nat.zero_le _)) (fun _ w₁ begun => ?_) fun _ _ begun => begun.1
  refine Meets.bind (M.attempt (M.fetching (h.fetches tends more relation) _) w₁ begun.1 (Nat.zero_le _))
    (fun outcome w₂ fetched => ?_) fun _ _ fetched => fetched.1
  cases outcome with
  | error e =>
    exact Meets.bind (abandons w₂ fetched.1 (Nat.zero_le _)) (fun _ w₃ there => .throw there.1)
      fun _ _ there => there.1
  | ok values =>
    obtain ⟨_, -, -, found⟩ := fetched.2.2 _ rfl
    have length := (found values rfl).1
    have wider : S.Kin (fun id n => id ∈ on ∧ n ∈ done ++ [name] ∧ S.Lacks id n)
        (fun id n => id ∈ on ∧ n ∈ done) (· ∈ done ++ [name]) w₂ :=
      fetched.1.weaken (fun _ _ own => ⟨own.1, List.mem_append_left _ own.2.1, own.2.2⟩)
        (fun _ _ => id) fun _ => List.mem_append_left _
    have targets : ∀ p ∈ (pending.map Value.object).zip values, ∃ id ∈ S.objects,
        (id ∈ on ∧ name ∈ done ++ [name] ∧ S.Lacks id name) ∧ p.1 = .object id := by
      intro p there
      obtain ⟨id, hid, same⟩ := List.mem_map.mp (List.of_mem_zip there).1
      obtain ⟨own, lacks⟩ := lacking id hid
      exact ⟨id, h.among id own, ⟨own, by simp, lacks⟩, same.symm⟩
    refine Meets.bind (h.ends_setRelations targets wider) (fun _ w₃ set => ?_) fun _ _ absurd =>
      nomatch absurd.1
    refine Meets.ofExcept_bind (fun registry same => ?_) fun _ absurd => ?_
    · obtain rfl := Except.ok.inj (h.given.symm.trans same)
      have marks := h.ends_markObjects set.2 (fun id hid => h.among id (lacking id hid).1)
        (show ∀ n ∈ [name], n ∈ done ++ [name] by simp)
      refine marks.imp fun r w₄ ended => ?_
      obtain ⟨rfl, kin⟩ := ended
      refine kin.loading fun id n own => ?_
      rcases List.mem_append.mp own.2 with old | new
      · exact .inl (.inl ⟨own.1, old⟩)
      · obtain rfl := List.mem_singleton.mp new
        refine (others id own.1).imp (fun there => .inr ⟨?_, rfl⟩) fun carried => ⟨carried, fun may =>
          carried may.2.2⟩
        rw [List.map_fst_zip length.ge]
        exact List.mem_map_of_mem there
    · rw [h.given] at absurd
      cases absurd

/-- Fetching one more relation for all of the objects, which lack it. -/
theorem ends_fetchKnown {load : LoadPaths τ}
    (tends : ∀ {M : Manner τ}, M.Loads → M.Tends load) (stage : S.Stage on done w)
    (hname : name ∈ names) (fresh : name ∉ done) (lacks : ∀ id ∈ on, S.Lacks id name) :
    Ends pact (Loader.fetchKnown load loader (on.map .object) name w.toEnv) w fun
      | .ok _ => S.Stage on (done ++ [name])
      | .error _ => S.Stage on done := by
  refine Meets.ofExcept_bind (fun found known => ?_) fun _ _ => stage
  obtain ⟨m, d, rfl, required, i, hi, model⟩ := h.described stage known
  exact h.ends_loadPending tends stage hname fresh ⟨hname, ⟨i, hi, model⟩, stage.lookup ▸ required⟩
    (fun id own => ⟨own, lacks id own⟩) fun _ => .inl

/-- What the objects lack is what they lacked to begin with. -/
theorem lacks_iff (stage : S.Stage on done w) (fresh : name ∉ done) {id : ObjectId} (own : id ∈ on) :
    w.isLoadedOn (.text name) (.object id) = false ↔ S.Lacks id name := by
  rw [stage.isLoadedOn_eq h.proper (h.among id own) fun may => fresh may.2.1, Lacks]

/-- One name of a load, whichever of the objects lack it. -/
theorem ends_loadName {load : LoadPaths τ} {below : Descriptor → List Value → Deed τ Unit}
    (tends : ∀ {M : Manner τ}, M.Loads → M.Tends load) (stage : S.Stage on done w)
    (hname : name ∈ names) (fresh : name ∉ done) :
    Ends pact (Loader.loadName load below loader (on.map .object) ⟨"", false⟩ name []) w fun
      | .ok _ => S.Stage on (done ++ [name])
      | .error _ => S.Stage on done := by
  let pending := on.filter fun id => !w.isLoadedOn (.text name) (.object id)
  have lacking : ∀ id ∈ pending, id ∈ on ∧ S.Lacks id name := fun id there => by
    obtain ⟨own, unset⟩ := List.mem_filter.mp there
    exact ⟨own, (h.lacks_iff stage fresh own).mp (by simpa using unset)⟩
  have others : ∀ id ∈ on, id ∈ pending ∨ ¬ S.Lacks id name := fun id own => by
    by_cases lacks : S.Lacks id name
    · exact .inl (List.mem_filter.mpr ⟨own, by simp [(h.lacks_iff stage fresh own).mpr lacks]⟩)
    · exact .inr lacks
  have whole : ("" : String) ++ name = name := String.empty_append
  refine Meets.bind (Q := fun
    | .ok _ => S.Stage on (done ++ [name])
    | .error _ => S.Stage on done) ?_ (fun found w' there => ?_) fun _ _ there => there
  · refine Meets.getsExcept_bind (fun found known => ?_) fun _ _ => stage
    obtain ⟨m, d, rfl, required, i, hi, model⟩ := h.described stage known
    refine Meets.gets_bind ?_
    simp only [h.kept, Bool.false_eq_true, if_false, List.filter_map, whole]
    split
    · have pended := h.ends_loadPending tends stage hname fresh
        ⟨hname, ⟨i, hi, model⟩, stage.lookup ▸ required⟩ lacking others
      exact Meets.bind pended (fun _ _ there => .pure there) fun _ _ there => there
    · next none =>
      have none : pending = [] := by simpa [pending] using none
      refine .pure (Kin.loading (stage.weaken
        (fun _ _ own => ⟨own.1, List.mem_append_left _ own.2.1, own.2.2⟩) (fun _ _ own => own)
        fun _ => List.mem_append_left _) fun id n own => ?_)
      rcases List.mem_append.mp own.2 with old | new
      · exact .inl ⟨own.1, old⟩
      · obtain rfl := List.mem_singleton.mp new
        have carried := (others id own.1).resolve_left (by simp [none])
        exact .inr ⟨carried, fun may => carried may.2.2⟩
  · cases found <;> exact .pure there

/-- Where a load stands when it has come through the names, or has broken off. -/
def Left (S : Scene τ) (on : List ObjectId) (names : List String) :
    Except Error PUnit → World τ → Prop
  | .ok _ => S.Stage on names
  | .error _ => fun w => ∃ before name after, names = before ++ name :: after ∧ S.Stage on before w

/-- Loops over the names go the same way if they do so name by name. -/
theorem meets_forM {f g : String → Deed τ PUnit} (stage : S.Stage on [] w)
    (body : ∀ done, ∀ name ∈ names, name ∉ done → ∀ w, S.Stage on done w →
      Meets pact (f name) (g name) w fun
        | .ok _ => S.Stage on (done ++ [name])
        | .error _ => S.Stage on done) :
    Meets pact (names.forM f) (names.forM g) w (Left S on names) := by
  refine (Meets.forM_parts (I := S.Stage on) stage fun before name after whole w stage => ?_).imp
    fun r w' there => by cases r <;> exact there
  refine body before name (whole ▸ List.mem_append_right _ (.head _)) (fun old => ?_) w stage
  have once := h.named.once
  rw [whole] at once
  exact (List.nodup_append.mp once).2.2 name old name (.head _) rfl

/-- A load goes from name to name. -/
theorem reads_load (stage : S.Stage on [] w) :
    ∃ below : String → Descriptor → List Value → Deed τ Unit,
      (Loader.load loader (on.map .object) (names.map .text)).Reads (names.forM fun name =>
        Loader.loadName Loader.nested (below name) loader (on.map .object) ⟨"", false⟩ name []) w := by
  obtain ⟨m, class_⟩ := h.class_
  have some_ : on.map Value.object ≠ [] := by simpa using h.some_
  have one : ∀ v ∈ on.map Value.object, v.isNull = false ∧
      Loader.classKey w.toEnv v = .model m := by
    refine List.forall_mem_map.mpr fun id hid => ⟨rfl, ?_⟩
    obtain ⟨e, own, -⟩ := h.proper.objects id (h.among id hid)
    obtain ⟨e', later, kin⟩ := stage.objects id (h.among id hid) e own
    have same : e'.model = m := kin.model.trans (class_ id hid e own)
    simp [Loader.classKey, later, same]
  exact ⟨_, Loader.load_eq loader _ _ ▸ Loader.reads_loadBelow h.named some_ one⟩

/-- A load on objects that lack the relations goes the same way as fetching each relation once for
all of them. -/
theorem meets_load (lacks : ∀ id ∈ on, ∀ name ∈ names, S.Lacks id name) (stage : S.Stage on [] w) :
    Meets pact (Loader.load loader (on.map .object) (names.map .text))
      (names.forM (Loader.fetchOnce Loader.nested loader (on.map .object))) w (Left S on names) := by
  obtain ⟨below, reads⟩ := h.reads_load stage
  have some_ : on.map Value.object ≠ [] := by simpa using h.some_
  refine reads.meets (.refl _ w) (h.meets_forM stage fun done name hname fresh w stage => ?_)
  have lacks : ∀ id ∈ on, S.Lacks id name := fun id own => lacks id own name hname
  have now : ∀ v ∈ on.map Value.object, w.isLoadedOn (.text name) v = false :=
    List.forall_mem_map.mpr fun id own => (h.lacks_iff stage fresh own).mpr (lacks id own)
  exact (Loader.reads_loadName h.kept some_ now).meets
    (Loader.reads_fetchOnce Loader.nested loader _ name w)
    (h.ends_fetchKnown Loader.tends_nested stage hname fresh lacks)

theorem ends_load (stage : S.Stage on [] w) :
    Ends pact (Loader.load loader (on.map .object) (names.map .text)) w (Left S on names) := by
  obtain ⟨below, reads⟩ := h.reads_load stage
  exact reads.meets reads (h.meets_forM stage fun done name hname fresh w stage =>
    h.ends_loadName Loader.tends_nested stage hname fresh)

end Undertaken

end Scene

/-- The query for a relation that nothing refines asks for what is always loaded with its rows. -/
theorem Loader.loads_of_unrefined {loader : Loader} {env : Env} {d : Descriptor} {parent : Model}
    {path : String} {keys : List Value} {q : Query} (constraints : d.constraints = [])
    (callback : loader.callbackFor path = .null)
    (built : loader.chunkQuery env d parent path keys = .ok q) :
    ∃ related base, env.relatedModel d = .ok related ∧ related.query = .ok base ∧
      q.loads = base.loads := by
  obtain ⟨related, base, plain, -, found, queried, refined, -, -, -, beside⟩ :=
    Loader.chunkQuery_eq_ok (J := fun _ => True) built (by simp [constraints]) (callback ▸ .none)
  have same : Build.finish base (env.refining d (loader.callbackFor path)) = .ok base := by
    rw [callback, Env.refining, constraints]
    rfl
  obtain rfl := Except.ok.inj (same.symm.trans refined)
  exact ⟨related, base, found, queried, beside.loads⟩

/-- Relations with a fixed target that nothing refines ask for no relations in turn, if none are
always loaded with what they lead to. -/
theorem Scene.flat_of_unrefined {τ : Type} {S : Scene τ} {loader : Loader} {names : List String}
    (unrefined : ∀ m name d, S.HasRelation names m name d → d.kind ≠ .morphTo ∧
      d.constraints = [] ∧ loader.callbackFor name = .null ∧
        ∀ related, S.start.relatedModel d = .ok related → related.defaultWith = []) :
    S.Flat loader names where
  chunk m name d relation env same keys q built := by
    obtain ⟨-, constraints, callback, bare⟩ := unrefined m name d relation
    obtain ⟨related, base, found, queried, loads⟩ :=
      Loader.loads_of_unrefined constraints callback built
    have none := bare related (by rw [← found, same])
    rw [Model.query, none] at queried
    obtain rfl := Except.ok.inj queried
    rw [loads]
    rfl
  target m name d relation kind := absurd kind (unrefined m name d relation).1

end Relata
