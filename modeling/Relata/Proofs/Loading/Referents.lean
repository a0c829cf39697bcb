import Relata.Proofs.Loading.Marking
import Relata.Proofs.Loading.Referrers
import Relata.Proofs.Loading.Twice

/-!
What objects are led to by a tag and an identifier. Loaded on many objects at once, with one statement for
each piece of the distinct identifiers that come with one model, each object comes to hold what it refers
to by itself: an object made of the row of that model that has its identifier, or null. What is always
loaded with the rows may send statements and warn of something in between.
-/

namespace Relata

open Act (Runs Carries Comes)
open Deed (Made)
open Sql (Select Statement)

/-- What has been warned of stays told; unless all is quiet, there may be more of it. -/
def World.Tells {τ : Type} (quiet : Prop) (w w' : World τ) : Prop :=
  w.Grows w' ∧ ∃ more, w'.warnings = w.warnings ++ more ∧ (quiet → more = [])

namespace World.Tells

variable {τ : Type} {quiet : Prop} {w w' w'' : World τ}

theorem of_same (grows : w.Grows w') (same : w'.warnings = w.warnings) : w.Tells quiet w' :=
  ⟨grows, [], by simp [same], fun _ => rfl⟩

theorem trans (h : w.Tells quiet w') (h' : w'.Tells quiet w'') : w.Tells quiet w'' := by
  obtain ⟨grows, more, told, silent⟩ := h
  obtain ⟨grows', more', told', silent'⟩ := h'
  exact ⟨grows.trans grows', more ++ more', by rw [told', told, List.append_assoc],
    fun calm => by rw [silent calm, silent' calm]; rfl⟩

theorem latitude : Latitude (τ := τ) (Tells quiet) :=
  ⟨fun w => of_same (.refl w) rfl, trans, fun w _ bare => of_same (w.adds_extended bare).grows rfl,
    fun w members => of_same (w.adds_adopted members).grows rfl, And.left⟩

/-- Whatever is loaded may warn of something, unless all has to be quiet. -/
theorem allows (loud : ¬ quiet) : Deed.Allows (τ := τ) (Tells quiet) where
  newObject w e := of_same (Deed.allows_grows.newObject w e) rfl
  modified w id _ keeps := of_same (Deed.allows_grows.modified w id keeps) rfl
  adopted w members := of_same (Deed.allows_grows.adopted w members) rfl
  warned w text := ⟨Deed.allows_grows.warned w text, [text], rfl, fun calm => absurd calm loud⟩
  marked w registry key names := of_same (Deed.allows_grows.marked w registry key names) rfl

/-- What a query loads with its rows may warn of something, if it loads anything. -/
theorem nests {q : Query} (flat : quiet → q.loads.paths = []) (depth : Nat) (registry : Value) :
    q.Nests (τ := τ) (Tells quiet) (Loader.below depth) registry := by
  by_cases calm : quiet
  · exact .of_flat (flat calm)
  · refine fun _ objects => ⟨Loader.made_loadBelow _ _ _ _ _, fun w sent t runs => ?_⟩
    have made : Deed.Made (Tells (τ := τ) quiet) (Loader.below depth (.ofRequest q.loads registry false)
        objects q.loads.paths) := Loader.made_loadBelow_of (allows calm) _ _ _ _ _
    exact (made.runs_of_carries latitude.refl trans runs.carries).2

end World.Tells

/-- Nothing is loaded with the objects of a model that does not say so. -/
theorem Model.loads_of_query {m : Model} {q : Query} (new : m.query = .ok q) (none : m.defaultWith = []) :
    q.loads.paths = [] := by
  unfold Model.query at new
  rw [none] at new
  obtain rfl := Except.ok.inj new
  rfl

namespace Loader

variable {τ : Type} {w w' : World τ} {d : Descriptor} {path : String} {ids : List ObjectId} {id : ObjectId}
  {m : Model} {self : Loader}

/-- What is selected of the targets of a path: all columns, or those that the path is restricted to,
with the identifier. -/
def targetColumns (self : Loader) (path : String) : List Value :=
  match self.columnsFor path with
  | .list (first :: rest) =>
    let named := first :: rest
    let flat := Value.flatten (if named.any (Value.same (.text "id")) then named else named ++ [.text "id"])
    if flat.isEmpty then [.text "*"] else flat
  | _ => [.text "*"]

/-- The statement for the rows of a model that have one of the identifiers. -/
def targetStatement (self : Loader) (path : String) (m : Model) (keys : List Value) : Statement where
  select := { Select.all m.source .null with
    columns := self.targetColumns path
    conditions := [.leaf .and (.among false s!"{m.table}.id" keys)] }
  branches := []

theorem withIdentifier_list (env : Env) (items : List Value) : withIdentifier env (.list items) =
    .ok (if items.any (Value.same (.text "id")) then items else items ++ [.text "id"]) := by
  unfold withIdentifier
  rw [show env.iterate (.list items) = .ok items from rfl,
    show (env.opened (.list items)).holds (.text "id") = some (items.any (Value.same (.text "id"))) from rfl]
  cases items.any (Value.same (.text "id")) <;> rfl

/-- The query for the targets of an unrefined path makes that statement, whatever else is there. -/
theorem Unrefined.targetQuery_ok (free : Unrefined self d path) (env : Env) {m : Model} {q : Query}
    (new : m.query = .ok q) (keys : List Value) :
    ∃ q', self.targetQuery env d m path keys = .ok q' ∧ q'.statement = self.targetStatement path m keys ∧
      q'.loads = q.loads := by
  refine ⟨{ q with select := (self.targetStatement path m keys).select }, ?_, ?_, rfl⟩
  · have blank : q.select = .all m.source .null :=
      Query.Blind.query (I := fun q => q.select = .all m.source .null) (fun _ _ same => same) rfl new
    have unchained : env.chain d.constraints = pure .self := by
      rw [free.constraints, Env.chain, Build.chain, List.foldlM_nil]
    unfold targetQuery refined targetStatement targetColumns
    rw [new, free.callback]
    simp only [unchained]
    cases q
    subst blank
    obtain null | ⟨items, list⟩ := free.columns
    · rw [null]
      rfl
    · rw [list]
      cases items with
      | nil => rfl
      | cons first rest =>
        simp only [withIdentifier_list]
        rfl
  · have alone : q.branches = [] :=
      Query.Blind.query (I := fun q => q.branches = []) (fun _ _ same => same) rfl new
    unfold Query.statement
    rw [alone]
    rfl

variable {answers : Request → Except Error (List Row)} {load : LoadPaths τ} {i : ModelId} {rows : List Row}
  {made : Row → Entity} {pieces : List (List Value)}

/-- The rows of a model that are not deleted can be asked for: each statement is answered with those that
have one of its identifiers, each of them becomes an object that has its identifier, and what is always
loaded with such objects loads. -/
structure Stored (answers : Request → Except Error (List Row)) (load : LoadPaths τ) (loader : Loader)
    (path : String) (w : World τ) (i : ModelId) (m : Model) (rows : List Row) (made : Row → Entity)
    (pieces : List (List Value)) : Prop where
  own : m.id = i
  known : w.catalog.model? i = some m
  answered : ∀ keys ∈ pieces, ∃ f n, (loader.targetStatement path m keys).checked "get" = .ok f ∧
    w.runner m.connection = .ok n ∧ answers ⟨n, f.text, f.values⟩ = .ok (bearing rowId rows keys)
  hydrated : ∀ row ∈ rows, m.hydrate (row.map fun (name, v) => (.text name, v)) = .ok (made row)
  identified : ∀ row ∈ rows, (made row).fields.lookup "id" = some (rowId row)
  nested : ∃ q, m.query = .ok q ∧ (q.loads.paths ≠ [] → ∀ members w', w.Grows w' → ∃ w'', Comes answers
    (load (.ofRequest q.loads loader.registry false) members q.loads.paths) w' (.ok ()) w'')

theorem Stored.later (h : Stored answers load self path w i m rows made pieces) (grows : w.Grows w') :
    Stored answers load self path w' i m rows made pieces where
  own := h.own
  known := grows.lookup ▸ h.known
  answered keys there := by
    obtain ⟨f, n, passed, runner, answered⟩ := h.answered keys there
    exact ⟨f, n, passed, World.runner_later grows runner, answered⟩
  hydrated := h.hydrated
  identified := h.identified
  nested := by
    obtain ⟨q, new, loads⟩ := h.nested
    exact ⟨q, new, fun more members w'' grows' => loads more members w'' (grows.trans grows')⟩

theorem Stored.asModel (h : Stored answers load self path w i m rows made pieces) :
    w.asModel (.model i) = .ok m := by
  simp [Lookup.asModel, h.known]

/-- A row becomes what it is to become. -/
theorem Stored.entity (h : Stored answers load self path w i m rows made pieces) {q : Query}
    (select : q.select = (self.targetStatement path m keys).select) {row : Row} (there : row ∈ rows) :
    q.entity w.toLookup row = .ok (made row) := by
  have known : w.catalog.model? q.select.source.model = some m := by
    rw [select]
    change w.catalog.model? m.id = some m
    rw [h.own]
    exact h.known
  unfold Query.entity Query.gatherPivot
  rw [known, select]
  exact h.hydrated row there

variable {n : Int} {table : ModelId → List Row} {makes : ModelId → Row → Entity}

/-- The rows of each model that the tags of the objects stand for can be asked for, piece by piece. -/
def AllStored (answers : Request → Except Error (List Row)) (load : LoadPaths τ) (loader : Loader)
    (d : Descriptor) (path : String) (w : World τ) (ids : List ObjectId) (n : Int)
    (table : ModelId → List Row) (made : ModelId → Row → Entity) : Prop :=
  ∀ i ∈ modelsNamed w d ids, ∃ target,
    Stored answers load loader path w i target (table i) (made i) (piecesFor w d ids n i)

theorem AllStored.later (h : AllStored answers load self d path w ids n table makes)
    (refers : Referrers w d m ids) (grows : w.Grows w') :
    AllStored answers load self d path w' ids n table makes := by
  intro i own
  rw [refers.modelsNamed grows] at own
  obtain ⟨target, stored⟩ := h i own
  exact ⟨target, refers.piecesFor grows n i ▸ stored.later grows⟩

/-- The rows that have one of the identifiers become objects, each found by its own. -/
theorem comes_targetPage (loads : ∀ self objects paths, Made World.Grows (load self objects paths))
    (free : Unrefined self d path) (h : Stored answers load self path w i m rows made pieces)
    {keys : List Value} (there : keys ∈ pieces) (hash : ∀ k ∈ keys, w.Key k) :
    ∃ page w', Comes answers (targetPage load self d m path keys) w (.ok page) w' ∧ w.Grows w' ∧
      List.Forall₂ (Query.IsMade rowId made w') (bearing rowId rows keys) page := by
  obtain ⟨f, n, passed, runner, answered⟩ := h.answered keys there
  obtain ⟨q, new, nested⟩ := h.nested
  have member {row : Row} (own : row ∈ bearing rowId rows keys) : row ∈ rows := mem_of_mem_bearing own
  obtain ⟨q', built, whole, same⟩ := free.targetQuery_ok w.toEnv new keys
  have select : q'.select = (self.targetStatement path m keys).select := congrArg Statement.select whole
  have split : ∀ row ∈ bearing rowId rows keys, Query.splitKey .null row = .ok (.null, row) := fun _ _ => rfl
  have passed : q'.statement.checked "get" = .ok f := whole ▸ passed
  have runner : w.runner q'.select.source.connection = .ok n := select ▸ runner
  obtain ⟨page, w₁, comes, grows, holds, -⟩ := Query.comes_fetch loads passed runner answered split
    (fun row own => h.entity select (member own)) (same ▸ nested)
  refine ⟨((bearing rowId rows keys).map rowId).zip page.members, w₁, ?_, grows, Query.isMade_zip holds⟩
  have reads : Comes answers (page.members.mapM fun o => Act.getsExcept fun w : World τ =>
      w.requireProperty (.object o) "id") w₁ (.ok ((bearing rowId rows keys).map rowId)) w₁ := by
    refine .mapM_same (List.forall₂_map_right_iff.mpr (List.Forall₂.flip ?_))
    refine ((List.forall₂_and_left _ _).mpr ⟨fun _ own => own, holds⟩).imp ?_
    rintro row o ⟨own, holds⟩
    exact .getsExcept_ok _ (holds.requireId (h.identified row (member own)))
  have hashed : ∀ k ∈ (bearing rowId rows keys).map rowId, w₁.isKey k = true :=
    List.forall_mem_map.mpr fun row own => key_of_mem_bearing hash own w₁ grows
  exact Comes.bind (.getsExcept_ok _ built) (comes.bind (reads.bind
    (Comes.bind (comes_keysMustHash hashed) (.pure _ _))))

/-- The targets of objects that name one model are found. -/
theorem comes_fetchTargets (loads : ∀ self objects paths, Made World.Grows (load self objects paths))
    (free : Unrefined self d path) {key : ObjectId → Value} (size : self.chunkSize = .int n)
    (positive : 1 ≤ n) (h : Stored answers load self path w i m rows made
      (Relata.pieces (n.toNat - 1) (distinctKeys (ids.map key))))
    (reads : ∀ id ∈ ids, ∀ w', w.Grows w' →
      w'.propertyOrNull (.object id) (Descriptor.written d.idColumn) = .ok (key id))
    (hash : ∀ id ∈ ids, w.Key (key id)) :
    ∃ found w', Comes answers (fetchTargets load self d path (.model i) (ids.map .object)) w (.ok found) w' ∧
      w.Grows w' := by
  have batch : ∀ k ∈ ids.map key, w.Key k := List.forall_mem_map.mpr hash
  have step : ∀ keys ∈ Relata.pieces (n.toNat - 1) (distinctKeys (ids.map key)), ∀ s, w.Grows s →
      ∃ page s', Comes answers (targetPage load self d m path keys) s (.ok page) s' ∧ s.Grows s' ∧ True := by
    intro keys there s grows
    obtain ⟨page, s', comes, grows', -⟩ := comes_targetPage loads free (h.later grows) there
      fun k hk => (batch k (mem_of_mem_pieces there hk)).later grows
    exact ⟨page, s', comes, grows', trivial⟩
  obtain ⟨pages, w₁, comes₁, grows₁, -⟩ := Comes.mapM (Q := fun _ _ _ => True) World.Grows.refl
    World.Grows.trans (fun _ _ => trivial) step
  obtain ⟨c, w₂, comes₂, grows₂⟩ := Deed.comes_adopt answers (pages.flatten.map (·.2)) w₁
  have grows := grows₁.trans grows₂
  refine ⟨ids.map fun id => (.object id, bearer pages.flatten (key id)), w₂, ?_, grows⟩
  unfold fetchTargets
  refine Comes.bind (.getsExcept_ok _ h.asModel) (Comes.bind (a := ids.map key) (comes_properties ?_)
    (Comes.bind (comes_keysMustHash ?_) ?_))
  · exact List.forall₂_map_left_iff.mpr (List.forall₂_map_right_iff.mpr
      (List.forall₂_same.mpr fun id there => reads id there w (.refl w)))
  · exact fun k hk => batch k (List.mem_filter.mp hk).1 w (.refl w)
  rw [size, chunks_int positive]
  refine Comes.bind (.ofExcept _ w) (comes₁.bind (Comes.bind (comes₂.bind (.pure _ _)) ?_))
  refine .mapM_same (List.forall₂_map_left_iff.mpr (List.forall₂_map_right_iff.mpr ?_))
  exact List.forall₂_same.mpr fun id there =>
    Comes.bind (.getsExcept_ok _ (reads id there w₂ grows)) (.pure _ _)

/-- Objects are filed by what they name, with a warning of each that is astray. -/
theorem runs_targetsByTag {objects : List Value} {named : List (Option Value × List String)}
    (each : List.Forall₂ (fun o f => w.targetFor d path o = .ok f) objects named) :
    Runs Eq (targetsByTag d path objects) w [] (.ok (filed [] (objects.zip (named.map (·.1)))))
      (w.warned (named.flatMap (·.2))) := by
  rw [targetsByTag_eq]
  generalize ([] : List (Value × List Value)) = begun
  induction objects generalizing w begun named with
  | nil =>
    cases each
    rw [List.flatMap_nil, World.warned_nil]
    exact .ofExcept (.ok begun) w
  | cons o rest ih =>
    cases each with
    | @cons _ f _ others own each =>
      rw [List.foldlM_cons, List.flatMap_cons, ← World.warned_warned]
      have first : Runs Eq (targetOf d path o >>= fun found => pure (found.elim begun fun target =>
          Matches.add begun target o)) w [] (.ok (f.1.elim begun fun target => Matches.add begun target o))
          (w.warned f.2) := Runs.bind (runs_targetOf w own) (.ofExcept (.ok _) _)
      exact Runs.bind first (@ih (w.warned f.2) _ each _)

/-- All objects get their targets: the fetch ends well. -/
theorem comes_fetchMorphTo (loads : ∀ self objects paths, Made World.Grows (load self objects paths))
    (free : Unrefined self d path) (size : self.chunkSize = .int n) (positive : 1 ≤ n)
    (refers : Referrers w d m ids) (stored : AllStored answers load self d path w ids n table makes) :
    ∃ values w', Comes answers (fetchMorphTo load self d path (ids.map .object)) w (.ok values) w' := by
  obtain ⟨named, each⟩ := refers.named path
  have files := Act.Runs.comes (runs_targetsByTag (List.forall₂_map_left_iff.mpr each))
    (List.forall_mem_nil _ : Obeys answers [])
  rw [refers.groups each] at files
  have step : ∀ group ∈ (modelsNamed w d ids).map fun i =>
      (Value.model i, (naming w d ids i).map Value.object), ∀ s, (w.warned (named.flatMap (·.2))).Grows s →
      ∃ found s', Comes answers (fetchTargets load self d path group.1 group.2) s (.ok found) s' ∧
        s.Grows s' ∧ True := by
    intro group there s later
    obtain ⟨i, own, rfl⟩ := List.mem_map.mp there
    obtain ⟨target, stored⟩ := stored i own
    have grows := (w.grows_warned (named.flatMap (·.2))).trans later
    have among {id : ObjectId} (there : id ∈ naming w d ids i) : id ∈ ids ∧ modelNamed w d id = some i := by
      simpa [naming] using there
    obtain ⟨found, s', comes, grows'⟩ := comes_fetchTargets loads free size positive (stored.later grows)
      (fun id there s' later => refers.reference (among there).1 (grows.trans later))
      (fun id there => (refers.keys id (among there).1 (by simp [(among there).2])).later grows)
    exact ⟨found, s', comes, grows', trivial⟩
  obtain ⟨found, w₂, comes, -⟩ := Comes.mapM (Q := fun _ _ _ => True) World.Grows.refl World.Grows.trans
    (fun _ _ => trivial) step
  exact ⟨_, w₂, files.bind (comes.bind (.pure _ _))⟩

/-- One statement for the rows of a model that have one of the identifiers, and whatever is sent after it
for the relations that are always loaded with them. -/
def Asking (loader : Loader) (path : String) (w : World τ)
    (m : Model) (rows : List Row) (keys : List Value) (sent : Dialogue) : Prop :=
  ∃ f n later, (loader.targetStatement path m keys).checked "get" = .ok f ∧ w.runner m.connection = .ok n ∧
    sent = (⟨n, f.text, f.values⟩, .ok (bearing rowId rows keys)) :: later ∧ (m.defaultWith = [] → later = [])

variable {R : World τ → World τ → Prop} (allows : World.Latitude R) {t : World τ}

include allows in
/-- What a page of targets has asked for, and what its objects are made of. -/
theorem Stored.page (h : Stored answers load self path w i m rows made pieces) (free : Unrefined self d path)
    {keys : List Value} (there : keys ∈ pieces) {page : Dialogue × List (Value × ObjectId)}
    (own : Page R (fun w => self.targetQuery w.toEnv d m path keys) .null
      (ReadOff fun o w => w.requireProperty (.object o) "id") w t page) (obeys : Obeys answers page.1) :
    Asking self path w m rows keys page.1 ∧
      List.Forall₂ (Query.IsMade rowId made t) (bearing rowId rows keys) page.2 := by
  obtain ⟨f, n, passed, runner, answered⟩ := h.answered keys there
  obtain ⟨q, new, -⟩ := h.nested
  obtain ⟨w', q', entities, before, built, ⟨asked, later, told, flat, ⟨f', n', rows', passed', runner', rfl,
    keyed⟩⟩, stands⟩ := own
  have grows := allows.grows before
  obtain ⟨_, built', whole, same⟩ := free.targetQuery_ok w'.toEnv new keys
  obtain rfl := Except.ok.inj (built.symm.trans built')
  have select : q'.select = (self.targetStatement path m keys).select := congrArg Statement.select whole
  obtain rfl : f' = f := by
    rw [whole, passed] at passed'
    exact (Except.ok.inj passed').symm
  obtain rfl : n' = n := by
    rw [select] at runner'
    exact Except.ok.inj (runner'.symm.trans (World.runner_later grows runner))
  obtain rfl : rows' = bearing rowId rows keys := by
    have told : page.1 = (⟨n', f'.text, f'.values⟩, .ok rows') :: later := told
    rw [told] at obeys
    exact Except.ok.inj ((obeys _ (List.Mem.head _)).trans answered)
  refine ⟨⟨f', n', later, passed, runner, told, fun none => flat (same ▸ Model.loads_of_query new none)⟩, ?_⟩
  refine ((List.forall₂_and_left _ _).mpr ⟨fun _ own => own, forall₂_ends keyed.flip stands⟩).imp ?_
  rintro row found ⟨own, e, keyed, new, s, later, holds, read⟩
  have member : row ∈ rows := mem_of_mem_bearing own
  obtain ⟨p, cut, hydrated⟩ := ok_of_bind keyed
  obtain rfl := Except.ok.inj cut
  obtain ⟨made', hydrated, ends⟩ := ok_of_bind hydrated
  obtain rfl := Except.ok.inj (((h.later grows).entity select member).symm.trans hydrated)
  obtain rfl := Except.ok.inj ends
  exact ⟨Except.ok.inj (read.symm.trans (holds.requireId (h.identified row member))), new.2⟩

/-- The first of the objects that bears the key is made of the first of the rows that does. -/
theorem bearer_of_isMade {key : Row → Value} {made : Row → Entity} {rows : List Row}
    {found : List (Value × ObjectId)} (pairs : List.Forall₂ (Query.IsMade key made t) rows found)
    (k : Value) :
    match rows.find? fun row => k.same (key row) with
    | some row => ∃ o, bearer found k = .object o ∧ t.Holds o (made row)
    | none => bearer found k = .null := by
  induction pairs with
  | nil => rfl
  | @cons row p _ _ own _ ih =>
    unfold bearer at ih ⊢
    rw [List.find?_cons, Value.lookup?, own.1]
    cases k.same (key row) with
    | true => exact ⟨p.2, rfl, own.2⟩
    | false => exact ih

include allows in
/-- What the pages for the objects of one model have asked for, and what an object is given of them. -/
theorem Stored.targetPages (free : Unrefined self d path) (size : self.chunkSize = .int n)
    (positive : 1 ≤ n) (refers : Referrers w d m ids) {target : Model}
    (h : Stored answers load self path w i target rows made (piecesFor w d ids n i))
    {pages : List (Dialogue × List (Value × ObjectId))}
    (own : TargetPages R self d path w t (.model i, (naming w d ids i).map .object) pages)
    (obeys : Obeys answers (pages.flatMap (·.1))) :
    List.Forall₂ (Asking self path w target rows) (piecesFor w d ids n i) (pages.map (·.1)) ∧
      List.Forall₂ (Query.IsMade rowId made t) ((piecesFor w d ids n i).flatMap (bearing rowId rows))
        (pages.flatMap (·.2)) := by
  obtain ⟨m', w', keys, pieces, known, before, read, cut, each⟩ := own
  obtain rfl := Except.ok.inj (h.asModel.symm.trans known)
  obtain rfl : keys = (naming w d ids i).map (referenceOf w d) := by
    refine eq_map_of_forall₂ (List.forall₂_map_left_iff.mp read) fun id there key read => ?_
    exact Except.ok.inj
      (read.symm.trans (refers.reference (List.mem_filter.mp there).1 (allows.grows before)))
  obtain rfl : pieces = piecesFor w d ids n i := by
    rw [size, chunks_int positive] at cut
    exact (Except.ok.inj cut).symm
  have each : List.Forall₂ (fun keys page => Asking self path w target rows keys page.1 ∧
      List.Forall₂ (Query.IsMade rowId made t) (bearing rowId rows keys) page.2)
      (piecesFor w d ids n i) pages :=
    (forall₂_mem each).imp fun keys page ⟨there, among, own⟩ => h.page allows free there own
      fun p told => obeys p (List.mem_flatMap.mpr ⟨page, among, told⟩)
  refine ⟨List.forall₂_map_right_iff.mpr (each.imp fun _ _ own => own.1), ?_⟩
  rw [List.flatMap_def, List.flatMap_def]
  exact List.rel_flatten (List.forall₂_map_left_iff.mpr (List.forall₂_map_right_iff.mpr
    (each.imp fun _ _ own => own.2)))

/-- What stands for a row: an object that was made of it, or null if there is none. -/
def StandsFor (made : ModelId → Row → Entity) (t : World τ) : Option (ModelId × Row) → Value → Prop
  | some (i, row), v => ∃ o, v = .object o ∧ t.Holds o (made i row)
  | none, v => v = .null

theorem StandsFor.later {made : ModelId → Row → Entity} {t' : World τ} {row : Option (ModelId × Row)}
    {v : Value} (h : StandsFor made t row v) (grows : t.Grows t') : StandsFor made t' row v := by
  cases row with
  | none => exact h
  | some row => exact h.imp fun o own => ⟨own.1, own.2.later grows⟩

/-- An object is given what stands for the row that it refers to by itself: whatever the size of the pieces
and whatever the other objects refer to. -/
theorem standsFor_bearer (refers : Referrers w d m ids) (there : id ∈ ids)
    (named : modelNamed w d id = some i) {related : List (Value × ObjectId)}
    (pairs : List.Forall₂ (Query.IsMade rowId (makes i) t)
      ((piecesFor w d ids n i).flatMap (bearing rowId (table i))) related) :
    StandsFor makes t (referent w d table id) (bearer related (referenceOf w d id)) := by
  have key {id : ObjectId} (own : id ∈ naming w d ids i) : (referenceOf w d id).isKey = true := by
    obtain ⟨there, named⟩ : id ∈ ids ∧ modelNamed w d id = some i := by simpa [naming] using own
    exact Env.isKey_of_isKey (refers.keys id there (by simp [named]) w (.refl w))
  have own : id ∈ naming w d ids i := by simp [naming, there, named]
  have rows : ((piecesFor w d ids n i).flatMap (bearing rowId (table i))).filter
      (fun row => (referenceOf w d id).same (rowId row)) = belonging rowId (table i) (referenceOf w d id) :=
    filter_pieces_distinctKeys (key own) (List.forall_mem_map.mpr fun id own => key own)
      (List.mem_map_of_mem own) _
  have found := bearer_of_isMade pairs (referenceOf w d id)
  rw [← List.head?_filter, rows] at found
  rw [referent, named, Option.bind_some]
  cases first : (belonging rowId (table i) (referenceOf w d id)).head? with
  | none =>
    rw [first] at found
    exact found
  | some row =>
    rw [first] at found
    exact found

/-- What is asked for all objects: for each model that their tags stand for, one statement for each piece
of the distinct identifiers that come with it, whichever of its tags they come with. -/
def AskedFor (loader : Loader) (d : Descriptor) (path : String) (w : World τ) (ids : List ObjectId) (n : Int)
    (table : ModelId → List Row) (sent : Dialogue) : Prop :=
  ∃ asked : List (List Dialogue), sent = asked.flatten.flatten ∧
    List.Forall₂ (fun i parts => ∃ target, w.catalog.model? i = some target ∧
      List.Forall₂ (Asking loader path w target (table i)) (piecesFor w d ids n i) parts)
    (modelsNamed w d ids) asked

include allows in
/-- What a fetch has asked for, and what it gives to each object. -/
theorem dispatched_referents (free : Unrefined self d path) (size : self.chunkSize = .int n)
    (positive : 1 ≤ n) (refers : Referrers w d m ids)
    (stored : AllStored answers load self d path w ids n table makes)
    {named : List (Option Value × List String)} {found : List (Dialogue × List (Value × Value))}
    {sent : Dialogue} (each : Named w d path ids named)
    (dispatch : Dispatch R self d path (filed [] ((ids.map Value.object).zip (named.map (·.1))))
      (w.warned (named.flatMap (·.2))) t sent found) (obeys : Obeys answers sent) :
    AskedFor self d path w ids n table sent ∧
      ∀ id ∈ ids, StandsFor makes t (referent w d table id) (given found id) := by
  have grows := w.grows_warned (named.flatMap (·.2))
  have groups := refers.groups each
  have pages {i : ModelId} (own : i ∈ modelsNamed w d ids) {pages : List (Dialogue × List (Value × ObjectId))}
      (asked : TargetPages R self d path (w.warned (named.flatMap (·.2))) t
        (.model i, (naming w d ids i).map .object) pages) (obeys : Obeys answers (pages.flatMap (·.1))) :
      ∃ target, w.catalog.model? i = some target ∧
        List.Forall₂ (Asking self path w target (table i)) (piecesFor w d ids n i) (pages.map (·.1)) ∧
        List.Forall₂ (Query.IsMade rowId (makes i) t)
          ((piecesFor w d ids n i).flatMap (bearing rowId (table i))) (pages.flatMap (·.2)) := by
    obtain ⟨target, stored⟩ := stored i own
    obtain ⟨statements, objects⟩ :=
      Stored.targetPages allows free size positive (refers.later grows) (stored.later grows) asked obeys
    exact ⟨target, stored.known, statements, objects⟩
  have among {p : Dialogue × List (Value × Value)} (there : p ∈ found) : Obeys answers p.1 :=
    fun q told => obeys q (dispatch.told ▸ List.mem_flatMap.mpr ⟨p, there, told⟩)
  refine ⟨?_, fun id there => ?_⟩
  · have targets := dispatch.targets
    rw [groups] at targets
    have parts := (forall₂_mem (List.forall₂_map_left_iff.mp targets)).imp
      fun i p ⟨own, there, ps, told, asked, _⟩ => by
        obtain ⟨target, known, statements, -⟩ := pages own asked (told ▸ among there)
        exact (⟨ps.map (·.1), ⟨target, known, statements⟩, by rw [told, List.flatMap_def]⟩ :
          ∃ parts, (∃ target, w.catalog.model? i = some target ∧
            List.Forall₂ (Asking self path w target (table i)) (piecesFor w d ids n i) parts) ∧
              p.1 = parts.flatten)
    obtain ⟨asked, statements, same⟩ := exists_of_forall₂ parts
    have sent_eq : found.map (·.1) = asked.map List.flatten :=
      eq_map_of_forall₂ (List.forall₂_map_right_iff.mpr same) fun _ _ _ own => own
    exact ⟨asked, by rw [dispatch.told, List.flatMap_def, sent_eq, List.flatten_flatten], statements⟩
  · obtain ⟨nothing, null⟩ | ⟨group, hgroup, p, hp, ps, same, -, told, asked, w', key, before, -, read,
        value⟩ :=
      dispatch.given_of_named each there (refers.targetFor there path)
    · rw [null, referent, Option.map_eq_none_iff.mp nothing]
      rfl
    · rw [groups] at hgroup
      obtain ⟨i, own, rfl⟩ := List.mem_map.mp hgroup
      obtain ⟨_, named, model⟩ := Option.map_eq_some_iff.mp same
      obtain rfl := Value.model.inj model
      obtain rfl := Except.ok.inj (read.symm.trans (refers.reference there before))
      obtain ⟨target, -, -, objects⟩ := pages own asked (told ▸ among hp)
      rw [value]
      exact standsFor_bearer refers there named objects

/-- The models that the tags of the objects stand for have nothing loaded with their rows. -/
def Unladen (w : World τ) (d : Descriptor) (ids : List ObjectId) : Prop :=
  ∀ i ∈ modelsNamed w d ids, ∀ target, w.catalog.model? i = some target → target.defaultWith = []

/-- One warning has been given of each object that is astray, and none of any other one. What is loaded with
the rows may have warned of something after that. -/
def WarnedOf (d : Descriptor) (path : String) (ids : List ObjectId) (w t : World τ) : Prop :=
  ∃ nested, t.warnings = w.warnings ++ (ids.filter (Astray w d ·)).map (complaint w d path) ++ nested ∧
    (Unladen w d ids → nested = [])

/-- What objects hold of what they refer to, and what it has taken. -/
structure HoldReferents (loader : Loader) (d : Descriptor) (path name : String) (ids : List ObjectId)
    (n : Int) (table : ModelId → List Row) (made : ModelId → Row → Entity) (w t : World τ)
    (sent : Dialogue) : Prop where
  /-- Each object holds what stands for the row that it refers to by itself. -/
  held : ∀ id ∈ ids, ∃ v, t.valueOf id name = some v ∧ StandsFor made t (referent w d table id) v
  warned : WarnedOf d path ids w t
  asked : AskedFor loader d path w ids n table sent

variable {name : String} {depth : Nat} {sent : Dialogue}

/-- The queries for the targets of the objects load nothing with their rows, if their models do not. -/
theorem Unladen.paths (unladen : Unladen w d ids) (refers : Referrers w d m ids)
    (free : Unrefined self d path) (stored : AllStored answers load self d path w ids n table makes)
    (there : id ∈ ids) {target : Value} {texts : List String}
    (named : w.targetFor d path (.object id) = .ok (some target, texts)) {found : Model}
    (known : w.asModel target = .ok found) {keys : List Value} {q : Query}
    (built : self.targetQuery w'.toEnv d found path keys = .ok q) : q.loads.paths = [] := by
  obtain ⟨same, -⟩ := Prod.mk.inj (Except.ok.inj ((refers.targetFor there path).symm.trans named))
  obtain ⟨i, own, rfl⟩ := Option.map_eq_some_iff.mp same
  have among : i ∈ modelsNamed w d ids :=
    List.mem_eraseDups.mpr (List.mem_filterMap.mpr ⟨id, there, own⟩)
  obtain ⟨target, stored⟩ := stored i among
  obtain rfl := Except.ok.inj (stored.asModel.symm.trans known)
  obtain ⟨_, new, -⟩ := stored.nested
  obtain ⟨_, built', -, loads⟩ := free.targetQuery_ok w'.toEnv new keys
  obtain rfl := Except.ok.inj (built.symm.trans built')
  rw [loads]
  exact Model.loads_of_query new (unladen i among target stored.known)

/-- A fetch for all objects finds for each of them what stands for the row that it refers to by itself. -/
theorem fetched_referents (free : Unrefined self d path) (size : self.chunkSize = .int n) (positive : 1 ≤ n)
    (refers : Referrers w d m ids) (stored : AllStored answers (below depth) self d path w ids n table makes)
    {outcome : Except Error (List Value)} (obeys : Obeys answers sent)
    (runs : Runs Eq (fetchMorphTo (below depth) self d path (ids.map .object)) w sent outcome t) :
    ∃ finds : ObjectId → Value, outcome = .ok (ids.map finds) ∧
      (∀ id ∈ ids, StandsFor makes t (referent w d table id) (finds id)) ∧
        WarnedOf d path ids w t ∧ AskedFor self d path w ids n table sent := by
  obtain ⟨values, _, comes⟩ := comes_fetchMorphTo (fun _ _ _ => made_loadBelow _ _ _ _ _) free size positive
    refers stored
  obtain ⟨rfl, -⟩ := (runs.comes obeys).unique comes
  obtain ⟨named, found, each, dispatch, rfl⟩ := runs_fetchMorphTo World.Tells.latitude
    (fun id there target texts own m known w' _ keys q built => World.Tells.nests
      (fun unladen : Unladen w d ids => unladen.paths refers free stored there own known built) _ _)
    runs.carries
  obtain ⟨asked, given⟩ := dispatched_referents World.Tells.latitude free size positive refers stored each
    dispatch obeys
  obtain ⟨-, nested, told, silent⟩ := dispatch.changed
  exact ⟨_, rfl, given, ⟨nested, refers.warnings each ▸ told, silent⟩, asked⟩

section Begun

/-! What is said of a fetch for objects that are marked as being loaded, said of them before that. -/

variable (h : Referrers w d m ids)
include h

theorem WarnedOf.of_begun (warned : WarnedOf d path ids (begun w ids name) t) : WarnedOf d path ids w t := by
  have begins := w.grows_begun ids name
  obtain ⟨nested, told, silent⟩ := warned
  refine ⟨nested, ?_, fun unladen => silent ?_⟩
  · rw [told, h.complaints_begun, begun, w.changed_eq]
  · unfold Unladen
    rw [h.modelsNamed begins, begins.lookup]
    exact unladen

theorem AskedFor.of_begun (asked : AskedFor self d path (begun w ids name) ids n table sent) :
    AskedFor self d path w ids n table sent := by
  have begins := w.grows_begun ids name
  obtain ⟨asked, told, each⟩ := asked
  rw [h.modelsNamed begins] at each
  refine ⟨asked, told, each.imp fun _ _ ⟨target, known, own⟩ => ⟨target, begins.lookup ▸ known, ?_⟩⟩
  rw [h.piecesFor begins] at own
  exact own.imp fun _ _ ⟨f, n, later, passed, runner, rest⟩ =>
    ⟨f, n, later, passed, World.runner_of_connections begins.connections.symm runner, rest⟩

end Begun

/-- Loaded on all objects at once, a relation whose target depends on the row leads each of them to the row
that it refers to by itself. -/
theorem loadPending_referents (kind : d.kind = .morphTo) (free : Unrefined self d path)
    (size : self.chunkSize = .int n) (positive : 1 ≤ n) (refers : Referrers w d m ids)
    (stored : AllStored answers (below depth) self d path w ids n table makes) :
    ∃ sent r t, Runs Eq (loadPending (below depth) self d m path (.text name) (ids.map .object)) w sent r t ∧
      Obeys answers sent ∧ (Markable self w ids → r = .ok ()) ∧
        HoldReferents self d path name ids n table makes w t sent := by
  have made_load : Made World.Grows (loadPending (τ := τ) (below depth) self d m path (.text name)
      (ids.map .object)) :=
    (@Manner.Loads.loadPending _ _ 0 _ _ _ _ Deed.loads_making tends_making m name _ fun _ _ => trivial).1
  obtain ⟨sent, r, t, runs, -, obeys⟩ := made_load.runs (fun _ => Eq.refl _) answers w
  obtain ⟨first, last, outcome, w₁, rfl, fetched, grows, concludes⟩ := carries_loadPending runs.carries
  have limits := sameLimits_fetching fetched.carries
  have fetch : fetching (τ := τ) (below depth) self d m path (ids.map .object) =
      fetchMorphTo (below depth) self d path (ids.map .object) := by
    rw [fetching, kind]
    rfl
  have begins := w.grows_begun ids name
  obtain ⟨finds, rfl, stands, warned, asked⟩ := fetched_referents free size positive (refers.later begins)
    (stored.later refers begins) (List.forall_mem_append.mp obeys).1 (fetch ▸ fetched)
  have present : ∀ id ∈ ids, id < w₁.objects.size := fun id there => by
    obtain ⟨e, holds, -⟩ := refers.holds there
    exact (holds.later (begins.trans grows)).lt_size
  obtain ⟨rfl, altered, set⟩ := concluded (by simp) present concludes
  refine ⟨first ++ [], r, t, runs, obeys, fun markable => ?_, fun id there => ?_, ?_, ?_⟩
  · exact ((markable.later begins (.of_registries (w.registries_changed _))).later grows limits).concludes
      concludes
  · obtain ⟨v, among, value⟩ := set id there
    obtain ⟨-, rfl⟩ : id ∈ ids ∧ finds id = v := by simpa [List.zip_map'] using among
    refine ⟨_, value, ?_⟩
    rw [← refers.referent there begins]
    exact (stands id there).later altered.grows
  · have silent := warnings_of_conclude concludes
    obtain ⟨nested, told, calm⟩ := warned.of_begun refers
    exact ⟨nested, silent.trans told, calm⟩
  · rw [List.append_nil]
    exact asked.of_begun refers

/-- There is nothing to be done for no objects. -/
theorem holdReferents_nil (w : World τ) : HoldReferents self d path name [] n table makes w w [] where
  held _ none := by cases none
  warned := ⟨[], by simp, fun _ => rfl⟩
  asked := ⟨[], rfl, .nil⟩

/-- A load of one relation on objects of one class comes down to one of the objects that it is fetched for. -/
theorem runs_load_pending {r : Except Error Unit} (segment : IsSegment name)
    (refers : Referrers w d m ids) (relation : w.require m (.text name) = .ok d)
    (some_ : pendingOf self w (.text name) ids ≠ [] → Runs Eq (loadPending loadNested self d m name
      (.text name) ((pendingOf self w (.text name) ids).map .object)) w sent r t)
    (none_ : pendingOf self w (.text name) ids = [] → sent = [] ∧ r = .ok () ∧ t = w) :
    Runs Eq (Loader.load self (ids.map .object) [.text name]) w sent r t := by
  have named : Names [name] := ⟨by simpa using segment.bare, by simpa using segment.single, by simp⟩
  cases ids with
  | nil =>
    obtain ⟨rfl, rfl, rfl⟩ := none_ (List.eq_nil_iff_forall_not_mem.mpr fun id there =>
      List.not_mem_nil (mem_pendingOf.mp there).1)
    have read : [Value.text name].mapM RelationPath.parse = .ok [(.text name, [])] :=
      mapM_parse_of_bare named.bare
    rw [load_eq, List.map_nil, loadBelow, read]
    exact Runs.bind_silent (.ofExcept _ t) (Runs.bind_silent (.gets _ t) (.ofExcept (.ok ()) t))
  | cons id rest =>
    have first : described w.toEnv false (.object id) name = .ok (some (m, d)) := by
      obtain ⟨e, there, model⟩ := refers.class_ id (.head _)
      have own : w.modelOfValue? (.object id) = some m := by
        simpa [Env.modelOfValue?, there, Env.modelOf?, model] using refers.known
      simp only [described, own, Bool.false_eq_true, if_false, relation]
      rfl
    have loaded : Runs Eq (loadRelation loadNested self ((id :: rest).map .object) name ⟨"", false⟩) w sent
        (r.map fun _ => some d) t := by
      unfold loadRelation
      refine Runs.bind_silent (.getsExcept_ok first) (Runs.bind_silent (.gets _ w) ?_)
      dsimp only
      rw [map_object_pendingOf]
      by_cases idle : pendingOf self w (.text name) (id :: rest) = []
      · obtain ⟨rfl, rfl, rfl⟩ := none_ idle
        rw [idle]
        exact .ofExcept (.ok (some d)) t
      · rw [if_pos (by simpa using idle)]
        exact (some_ idle).bind_pure fun _ => rfl
    have one : ∀ v ∈ (id :: rest).map Value.object, v.isNull = false ∧ classKey w.toEnv v = .model m.id :=
      List.forall_mem_map.mpr fun id there => by
        obtain ⟨e, found, model⟩ := refers.class_ id there
        simp [classKey, found, model, Value.isNull]
    have ends : (r.map fun _ => some d).map (fun _ => ()) = r := by
      cases r <;> rfl
    refine .of_reads (reads_loadBelow named (by simp) one) ?_
    rw [show ∀ f : String → Deed τ PUnit, [name].forM f = f name from fun _ => bind_pure_unit]
    exact ends ▸ loaded.bind_pure fun found => by cases found <;> rfl

/-- Loaded on many objects at once, a relation whose target depends on the row leads each object that it is
fetched for to what it would lead it to alone: to an object made of the row that it refers to, by a tag that
stands for a model and by the identifier of one of the rows of this model, or else to nothing. Neither the
chunk size nor the other objects show in it, nor by which of its tags an object names a model, nor how often
an identifier comes up. One warning is given of each of these objects whose tag stands for nothing. Objects
that name one model share its statements: one for each piece of their distinct identifiers. -/
theorem load_leads_to_referents (segment : IsSegment name) (kind : d.kind = .morphTo)
    (relation : w.require m (.text name) = .ok d) (free : Unrefined self d name)
    (size : self.chunkSize = .int n) (positive : 1 ≤ n) (refers : Referrers w d m ids)
    (stored : AllStored answers loadNested self d name w (pendingOf self w (.text name) ids) n table makes) :
    ∃ sent r t, Runs Eq (Loader.load self (ids.map .object) [.text name]) w sent r t ∧ Obeys answers sent ∧
      (Markable self w (pendingOf self w (.text name) ids) → r = .ok ()) ∧
        HoldReferents self d name name (pendingOf self w (.text name) ids) n table makes w t sent := by
  by_cases idle : pendingOf self w (.text name) ids = []
  · refine ⟨[], .ok (), w, ?_, List.forall_mem_nil _, fun _ => rfl, ?_⟩
    · exact runs_load_pending segment refers relation (absurd idle) fun _ => ⟨rfl, rfl, rfl⟩
    · rw [idle]
      exact holdReferents_nil w
  · obtain ⟨sent, r, t, runs, holds⟩ := loadPending_referents kind free size positive
      (refers.sub fun id there => (mem_pendingOf.mp there).1) stored
    exact ⟨sent, r, t, runs_load_pending segment refers relation (fun _ => runs) fun none => absurd none idle,
      holds⟩

/-- A post that refers to something by a tag and an identifier. -/
def filedPost (id : Int) (tag key : Value) : Entity :=
  ⟨0, [("id", .int id)], [("subject_type", tag), ("subject_id", key)], [], none⟩

/-- Posts that refer to labels by either of two tags, one of them to a label that is not there, and posts
without a tag or an identifier, or with a tag that stands for nothing. -/
def filedPosts : World Unit :=
  { Members.twoPosts with
    objects := #[filedPost 1 (.text "labels") (.int 9), filedPost 2 (.text "Label") (.int 9),
      filedPost 3 .null (.int 9), filedPost 4 (.text "ghost") (.int 9),
      filedPost 5 (.text "labels") (.int 8), filedPost 6 (.text "labels") .null,
      filedPost 7 (.text "Label") (.int 7)]
    collections := #[] }

def subjectOfPosts : Descriptor :=
  { (default : Descriptor) with
    kind := .morphTo
    morphName := some "subject"
    typeColumn := some "subject_type"
    idColumn := some "subject_id"
    pivotAlias := "pivot" }

def labelRows : ModelId → List Row := fun _ => [[("id", .int 7)], [("id", .int 9)]]

def labelMade : ModelId → Row → Entity := fun i row => ⟨i, row, [], [], none⟩

def labelAnswers (r : Request) : Except Error (List Row) := .ok (bearing rowId (labelRows 1) r.params)

theorem referrers_filedPosts :
    Referrers filedPosts subjectOfPosts Members.subjectPost [0, 1, 2, 3, 4, 5, 6] where
  class_ := by simp [filedPosts, filedPost, Env.object?, Members.subjectPost, threadedPost, plainPost]
  known := rfl
  tagged := ⟨by decide, by rfl⟩
  identified := ⟨by decide, by rfl⟩
  tags := by decide +kernel
  aliases := List.forall_mem_nil _
  keys id there _ w' _ := by
    simp only [List.mem_cons, List.not_mem_nil, or_false] at there
    rcases there with rfl | rfl | rfl | rfl | rfl | rfl | rfl <;> rfl

theorem pieces_filedPosts : piecesFor filedPosts subjectOfPosts [0, 1, 2, 3, 4, 5, 6] 1 1 =
    [[.int 9], [.int 8], [.int 7]] := by
  have keys : distinctKeys ((naming filedPosts subjectOfPosts [0, 1, 2, 3, 4, 5, 6] 1).map
      (referenceOf filedPosts subjectOfPosts)) = [.int 9, .int 8, .int 7] := by rfl
  rw [piecesFor, keys]
  simp [Relata.pieces]

theorem stored_labels : Stored labelAnswers loadNested oneByOne "subject" filedPosts 1 Members.label
    (labelRows 1) (labelMade 1) (piecesFor filedPosts subjectOfPosts [0, 1, 2, 3, 4, 5, 6] 1 1) where
  own := rfl
  known := rfl
  answered keys there := by
    obtain ⟨i, rfl⟩ : ∃ i, keys = [Value.int i] := by
      rw [pieces_filedPosts] at there
      simp only [List.mem_cons, List.not_mem_nil, or_false] at there
      rcases there with rfl | rfl | rfl <;> exact ⟨_, rfl⟩
    refine ⟨⟨"SELECT * FROM labels WHERE labels.id IN (?)", [.int i]⟩, 0, ?_, rfl, rfl⟩
    refine Statement.checked_eq_ok_iff.mpr ⟨by rfl, Guard.checkStatement_ofList _ ?_ ?_⟩
    · decide +kernel
    · decide +kernel
  hydrated row there := by
    simp only [labelRows, List.mem_cons, List.not_mem_nil, or_false] at there
    rcases there with rfl | rfl <;> rfl
  identified row there := by
    simp only [labelRows, List.mem_cons, List.not_mem_nil, or_false] at there
    rcases there with rfl | rfl <;> rfl
  nested := ⟨_, rfl, fun more => absurd rfl more⟩

/-- The posts are led to labels, by whichever tag, with one statement for each of the identifiers that come
with these tags, and the one that is astray is warned of. -/
theorem posts_lead_to_labels :
    ∃ sent t, Runs Eq (Loader.load oneByOne ([0, 1, 2, 3, 4, 5, 6].map .object) [.text "subject"]) filedPosts
        sent (.ok ()) t ∧ Obeys labelAnswers sent ∧
      HoldReferents oneByOne subjectOfPosts "subject" "subject" [0, 1, 2, 3, 4, 5, 6] 1 labelRows labelMade
        filedPosts t sent ∧
      [0, 1, 2, 3, 4, 5, 6].map (referent filedPosts subjectOfPosts labelRows) =
        [some (1, [("id", .int 9)]), some (1, [("id", .int 9)]), none, none, none, none,
          some (1, [("id", .int 7)])] ∧
      piecesFor filedPosts subjectOfPosts [0, 1, 2, 3, 4, 5, 6] 1 1 = [[.int 9], [.int 8], [.int 7]] ∧
      [0, 1, 2, 3, 4, 5, 6].filter (Astray filedPosts subjectOfPosts ·) = [3] := by
  have segment : IsSegment "subject" := ⟨by decide, by decide⟩
  have all : pendingOf oneByOne filedPosts (.text "subject") [0, 1, 2, 3, 4, 5, 6] =
      [0, 1, 2, 3, 4, 5, 6] := by decide +kernel
  have models : modelsNamed filedPosts subjectOfPosts [0, 1, 2, 3, 4, 5, 6] = [1] := by rfl
  have stored : AllStored labelAnswers loadNested oneByOne subjectOfPosts "subject" filedPosts
      (pendingOf oneByOne filedPosts (.text "subject") [0, 1, 2, 3, 4, 5, 6]) 1 labelRows labelMade := by
    rw [all, AllStored, models]
    exact List.forall_mem_singleton.mpr ⟨_, stored_labels⟩
  obtain ⟨sent, r, t, runs, obeys, marked, holds⟩ := load_leads_to_referents segment rfl (by rfl)
    ⟨rfl, rfl, .inl rfl⟩ rfl (le_refl 1) referrers_filedPosts stored
  rw [all] at marked holds
  have markable : Markable oneByOne filedPosts [0, 1, 2, 3, 4, 5, 6] := by
    refine ⟨⟨0, rfl, by rfl⟩, fun id there => ?_⟩
    simp only [List.mem_cons, List.not_mem_nil, or_false] at there
    rcases there with rfl | rfl | rfl | rfl | rfl | rfl | rfl <;>
      exact ⟨_, _, rfl, rfl, fun _ _ => rfl⟩
  obtain rfl := marked markable
  exact ⟨sent, t, runs, obeys, holds, by rfl, pieces_filedPosts, by rfl⟩

/-- A post whose identifier is a list, which can be no key, beside one on a label. -/
def unkeyedPosts : World Unit :=
  { filedPosts with
    objects := #[filedPost 1 (.text "labels") (.list [.int 9]), filedPost 2 (.text "labels") (.int 9)] }

/-- An identifier that can be no key fails the load, and the posts are left with nothing, whatever their tags
stand for. -/
theorem list_identifier_fails_load :
    unkeyedPosts.require Members.subjectPost (.text "subject") = .ok subjectOfPosts ∧
      [0, 1].map (modelNamed unkeyedPosts subjectOfPosts) = [some 1, some 1] ∧
      [0, 1].map (referenceOf unkeyedPosts subjectOfPosts) = [.list [.int 9], .int 9] ∧
      ∃ sent t, Runs Eq (Loader.load oneByOne ([0, 1].map .object) [.text "subject"]) unkeyedPosts sent
          (.error .badType) t ∧ Obeys labelAnswers sent ∧
        t.valueOf 0 "subject" = none ∧ t.valueOf 1 "subject" = none := by
  obtain ⟨sent, r, runs, obeys, ends⟩ := runs_finish labelAnswers
    (made_load oneByOne ([0, 1].map .object) [.text "subject"]) unkeyedPosts
  have fails : (match (Schedule.finish (((Loader.load oneByOne ([0, 1].map .object) [.text "subject"] >>=
      fun _ => pure Value.null) .done).answered fun r => Act.ofExcept (labelAnswers r)) unkeyedPosts).1 with
    | .error .badType => true
    | _ => false) = true := by decide +kernel
  obtain rfl : r = .error .badType := by
    rw [ends] at fails
    cases r with
    | ok => cases fails
    | error e => cases e <;> first | rfl | cases fails
  have lost : ∀ id ∈ [0, 1], ((Act.leaves labelAnswers (Loader.load oneByOne ([0, 1].map .object)
      [.text "subject"]) unkeyedPosts).valueOf id "subject").isNone = true := by decide +kernel
  exact ⟨by rfl, by rfl, by rfl, sent, _, runs, obeys, Option.isNone_iff_eq_none.mp (lost 0 (.head _)),
    Option.isNone_iff_eq_none.mp (lost 1 (.tail _ (.head _)))⟩

end Loader

end Relata

