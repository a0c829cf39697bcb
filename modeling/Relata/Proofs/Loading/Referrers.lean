import Relata.Proofs.Loading.Dispatched
import Relata.Proofs.Loading.Levels

/-!
What objects refer to by a tag and an identifier, object by object. The tag stands for a model, for nothing,
or is null; the identifier picks one of the rows of the model. Objects are filed under the models that
their tags stand for, in the order in which these are first seen, and a warning is given of each object
whose tag stands for nothing. None of this depends on what else comes to be.
-/

namespace Relata

/-- What each item determines. -/
theorem eq_map_of_forall₂ {α β : Type} {R : α → β → Prop} {f : α → β} {xs : List α} {ys : List β}
    (h : List.Forall₂ R xs ys) (same : ∀ x ∈ xs, ∀ y, R x y → y = f x) : ys = xs.map f := by
  induction h with
  | nil => rfl
  | cons own _ ih =>
    rw [List.map_cons, ← same _ (.head _) _ own, ← ih fun x there => same x (.tail _ there)]

/-- What an object has in a column, null if nothing. -/
def World.columnOf {τ : Type} (w : World τ) (name : String) (id : ObjectId) : Value :=
  ((w.object? id).map (·.column name)).getD .null

theorem World.columnOf_eq {τ : Type} {w : World τ} {id : ObjectId} {e : Entity} (holds : w.Holds id e)
    (name : String) : w.columnOf name id = e.column name := by
  obtain ⟨e', there, -, fields, extra⟩ := holds
  simp [columnOf, there, Entity.column, fields, extra]

namespace Env

variable {env env' : Env} (lookup : env'.toLookup = env.toLookup)
  (alike : ∀ id, (env'.object? id).map (fun e => (e.model, e.fields, e.extra)) =
    (env.object? id).map fun e => (e.model, e.fields, e.extra))
include lookup alike

theorem className_congr (v : Value) : env'.className v = env.className v := by
  cases v with
  | object id =>
    have same := alike id
    unfold className modelOf?
    rw [lookup]
    cases there : env.object? id <;> cases there' : env'.object? id <;> simp_all
  | relation owner name =>
    unfold className declaration?
    rw [lookup]
  | _ => rfl

theorem partsUpTo_congr (depth : Nat) (id : ObjectId) : env'.partsUpTo depth id = env.partsUpTo depth id := by
  induction depth generalizing id with
  | zero => rfl
  | succ depth ih =>
    have same := alike id
    unfold partsUpTo
    simp only [ih, className_congr lookup alike]
    cases there : env.object? id <;> cases there' : env'.object? id <;> simp_all

/-- The text of a value tells no more of objects than their classes and columns. -/
theorem shown_congr (collections : env'.collections = env.collections) (v : Value) :
    env'.shown v = env.shown v := by
  unfold shown inner collectionOf
  simp only [partsUpTo_congr lookup alike, className_congr lookup alike, collections]

end Env

namespace Loader

variable {τ : Type} {w w' : World τ} {d : Descriptor} {path name : String} {ids : List ObjectId}
  {id : ObjectId} {m : Model} {n : Int} {i : ModelId}

/-- The tag of an object. -/
def tagOf (w : World τ) (d : Descriptor) : ObjectId → Value := w.columnOf (Descriptor.written d.typeColumn)

/-- The identifier that an object has of what it refers to. -/
def referenceOf (w : World τ) (d : Descriptor) : ObjectId → Value :=
  w.columnOf (Descriptor.written d.idColumn)

/-- The model that the tag of an object stands for, if it stands for one. -/
def modelNamed (w : World τ) (d : Descriptor) (id : ObjectId) : Option ModelId :=
  if (tagOf w d id).isNull then none
  else match w.tags.modelFor w.catalog (tagOf w d id) with
    | .ok (.model i) => some i
    | _ => none

/-- An object has a tag, and it stands for no model. -/
def Astray (w : World τ) (d : Descriptor) (id : ObjectId) : Prop :=
  (tagOf w d id).isNull = false ∧ modelNamed w d id = none

instance : DecidablePred (Astray w d) := fun _ => inferInstanceAs (Decidable (_ ∧ _))

/-- Objects of one class, each with a tag and an identifier of what it refers to. Tags can be keys, and
so can the identifiers that come with the tag of a model; aliases stand for models, or for nothing. -/
structure Referrers (w : World τ) (d : Descriptor) (m : Model) (ids : List ObjectId) : Prop where
  class_ : ∀ id ∈ ids, ∃ e, w.object? id = some e ∧ e.model = m.id
  known : w.catalog.model? m.id = some m
  tagged : m.Plain (Descriptor.written d.typeColumn)
  identified : m.Plain (Descriptor.written d.idColumn)
  tags : ∀ id ∈ ids, (tagOf w d id).isKey = true
  aliases : ∀ e ∈ w.tags.aliases, e.2 = .null ∨ ∃ i, e.2 = .model i
  keys : ∀ id ∈ ids, (modelNamed w d id).isSome → w.Key (referenceOf w d id)

theorem Referrers.holds (h : Referrers w d m ids) (there : id ∈ ids) :
    ∃ e, w.Holds id e ∧ w.catalog.model? e.model = some m := by
  obtain ⟨e, found, model⟩ := h.class_ id there
  exact ⟨e, World.holds_of_object? found, model ▸ h.known⟩

theorem Referrers.reads (h : Referrers w d m ids) (there : id ∈ ids) {name : String} (plain : m.Plain name) :
    w.propertyOrNull (.object id) name = .ok (w.columnOf name id) := by
  obtain ⟨e, holds, known⟩ := h.holds there
  rw [holds.propertyOrNull known plain, World.columnOf_eq holds]

theorem Referrers.columnOf (h : Referrers w d m ids) (there : id ∈ ids) (grows : w.Grows w') (name : String) :
    w'.columnOf name id = w.columnOf name id := by
  obtain ⟨e, holds, -⟩ := h.holds there
  rw [World.columnOf_eq holds, World.columnOf_eq (holds.later grows)]

theorem Referrers.modelNamed (h : Referrers w d m ids) (there : id ∈ ids) (grows : w.Grows w') :
    modelNamed w' d id = modelNamed w d id := by
  unfold Loader.modelNamed tagOf
  rw [h.columnOf there grows, grows.lookup]

/-- Whatever else comes to be, the objects refer to what they referred to. -/
theorem Referrers.later (h : Referrers w d m ids) (grows : w.Grows w') : Referrers w' d m ids where
  class_ id there := by
    obtain ⟨e, found, model⟩ := h.class_ id there
    obtain ⟨e', found', model', -⟩ := grows.object found
    exact ⟨e', found', model'.trans model⟩
  known := grows.lookup ▸ h.known
  tagged := h.tagged
  identified := h.identified
  tags id there := by
    rw [tagOf, h.columnOf there grows]
    exact h.tags id there
  aliases := by
    rw [grows.lookup]
    exact h.aliases
  keys id there named := by
    rw [h.modelNamed there grows] at named
    rw [referenceOf, h.columnOf there grows]
    exact (h.keys id there named).later grows

/-- The identifier of what an object refers to is read off it, now and later. -/
theorem Referrers.reference (h : Referrers w d m ids) (there : id ∈ ids) (grows : w.Grows w') :
    w'.propertyOrNull (.object id) (Descriptor.written d.idColumn) = .ok (referenceOf w d id) := by
  rw [(h.later grows).reads there h.identified, h.columnOf there grows]
  rfl

/-- A tag stands for a model or for nothing, where aliases do. -/
theorem eq_model_of_modelFor {t : TagMap} {c : Catalog} {tag : Value} (key : tag.isKey = true)
    (aliases : ∀ e ∈ t.aliases, e.2 = .null ∨ ∃ i, e.2 = .model i) :
    t.modelFor c tag = .ok .null ∨ ∃ i, t.modelFor c tag = .ok (.model i) := by
  unfold TagMap.modelFor
  rw [if_neg (by simp [key])]
  split
  · next v found =>
    obtain ⟨k, there, -⟩ := Value.exists_of_lookup? found
    obtain rfl | ⟨i, rfl⟩ := aliases _ there
    · exact .inl rfl
    · exact .inr ⟨i, rfl⟩
  · cases (c.lookupOrder.find? fun m => m.morphClass.same tag).or (c.findByName? tag) with
    | none => exact .inl rfl
    | some m => exact .inr ⟨m.id, rfl⟩

/-- What is warned of an object whose tag stands for nothing. -/
def complaint (w : World τ) (d : Descriptor) (path : String) (id : ObjectId) : String :=
  w.unresolved path (.object id) (tagOf w d id)

/-- The tag of an object is null, or stands for nothing, or stands for a model. -/
theorem Referrers.tag_cases (h : Referrers w d m ids) (there : id ∈ ids) :
    (tagOf w d id).isNull = true ∧ Loader.modelNamed w d id = none ∨
      Astray w d id ∧ w.tags.modelFor w.catalog (tagOf w d id) = .ok .null ∨
        ∃ i, (tagOf w d id).isNull = false ∧ Loader.modelNamed w d id = some i ∧
          w.tags.modelFor w.catalog (tagOf w d id) = .ok (.model i) := by
  unfold Astray Loader.modelNamed
  by_cases null : (tagOf w d id).isNull = true
  · simp [null]
  · obtain found | ⟨i, found⟩ := eq_model_of_modelFor (c := w.catalog) (h.tags id there) h.aliases
    · simp [null, found]
    · simp [null, found]

/-- What an object names by its tag. -/
theorem Referrers.targetFor (h : Referrers w d m ids) (there : id ∈ ids) (path : String) :
    w.targetFor d path (.object id) = .ok ((Loader.modelNamed w d id).map .model,
      if Astray w d id then [complaint w d path id] else []) := by
  unfold Env.targetFor
  rw [h.reads there h.tagged]
  change (if (tagOf w d id).isNull then _ else w.tags.modelFor w.catalog (tagOf w d id) >>= _) = _
  obtain ⟨null, named⟩ | ⟨astray, found⟩ | ⟨i, given, named, found⟩ := h.tag_cases there
  · rw [if_pos null, named, if_neg (by simp [Astray, null])]
    rfl
  · rw [if_neg (by simp [astray.1]), if_pos astray, astray.2, found]
    rfl
  · rw [if_neg (by simp [given]), if_neg (by simp [Astray, named]), named, found]
    rfl

theorem Referrers.named_eq (h : Referrers w d m ids) {named : List (Option Value × List String)}
    (each : Named w d path ids named) :
    named = ids.map fun id => ((Loader.modelNamed w d id).map .model,
      if Astray w d id then [complaint w d path id] else []) :=
  eq_map_of_forall₂ each fun _ there _ own =>
    Except.ok.inj (own.symm.trans (h.targetFor there path))

/-- The models that the tags of the objects stand for, each when it is first seen. -/
def modelsNamed (w : World τ) (d : Descriptor) (ids : List ObjectId) : List ModelId :=
  (ids.filterMap (modelNamed w d)).eraseDups

/-- The objects whose tags stand for the model, whatever the tags are. -/
def naming (w : World τ) (d : Descriptor) (ids : List ObjectId) (i : ModelId) : List ObjectId :=
  ids.filter fun id => modelNamed w d id = some i

theorem filed_concat (groups : List (Value × List Value)) (pairs : List (Value × Option Value))
    (p : Value × Option Value) : filed groups (pairs ++ [p]) =
      p.2.elim (filed groups pairs) fun target => Matches.add (filed groups pairs) target p.1 := by
  simp [filed]

theorem eraseDups_concat (xs : List ModelId) (i : ModelId) :
    (xs ++ [i]).eraseDups = if i ∈ xs then xs.eraseDups else xs.eraseDups ++ [i] := by
  rw [List.eraseDups_append]
  by_cases seen : i ∈ xs <;> simp [List.removeAll, seen, List.eraseDups_cons]

/-- What is filed under a model joins what has been filed under it, or opens a group. -/
theorem add_model (seen : List ModelId) (members : ModelId → List Value) (i : ModelId) (o : Value) :
    Matches.add (seen.map fun j => (.model j, members j)) (.model i) o =
      if i ∈ seen then seen.map fun j => (.model j, members j ++ if i = j then [o] else [])
      else (seen.map fun j => (.model j, members j)) ++ [(.model i, [o])] := by
  have same (j : ModelId) : (Value.model i).same (.model j) = true ↔ i = j := by simp [Value.same]
  have there : (seen.map fun j => (Value.model j, members j)).any (fun e => (Value.model i).same e.1) = true ↔
      i ∈ seen := by simp [same]
  unfold Matches.add
  by_cases own : i ∈ seen
  · rw [if_pos (there.mpr own), if_pos own, List.map_map]
    refine List.map_congr_left fun j _ => ?_
    by_cases equal : i = j
    · subst equal
      simp [(same i).mpr rfl]
    · simp [same, equal]
  · rw [if_neg (mt there.mp own), if_neg own]

/-- Objects are filed under the models that their tags stand for. -/
theorem filed_models (w : World τ) (d : Descriptor) (ids : List ObjectId) :
    filed [] ((ids.map Value.object).zip (ids.map fun id => (modelNamed w d id).map .model)) =
      (modelsNamed w d ids).map fun i => (.model i, (naming w d ids i).map .object) := by
  unfold modelsNamed naming
  generalize modelNamed w d = named
  rw [List.zip_map']
  induction ids using List.reverseRecOn with
  | nil => rfl
  | append_singleton ids id ih =>
    rw [List.map_append, List.map_singleton, filed_concat, ih]
    cases own : named id with
    | none => simp [own]
    | some i =>
      have joins (j : ModelId) : ((ids ++ [id]).filter fun id => named id = some j).map Value.object =
          (ids.filter fun id => named id = some j).map .object ++ if i = j then [.object id] else [] := by
        by_cases equal : i = j <;> simp [own, equal]
      have last : (ids ++ [id]).filterMap named = ids.filterMap named ++ [i] := by simp [own]
      simp only [Option.map_some, Option.elim_some, add_model, joins, last, eraseDups_concat,
        List.mem_eraseDups]
      split
      · rfl
      · next fresh =>
        have alone : ids.filter (fun id => named id = some i) = [] := by
          simpa [List.filter_eq_nil_iff] using fresh
        rw [List.map_append, List.map_singleton, alone, if_pos rfl]
        congr 1
        refine List.map_congr_left fun j there => ?_
        have apart : i ≠ j := fun equal => fresh (equal ▸ List.mem_eraseDups.mp there)
        rw [if_neg apart, List.append_nil]

/-- The objects have names, and are filed by them. -/
theorem Referrers.named (h : Referrers w d m ids) (path : String) : ∃ named, Named w d path ids named :=
  ⟨_, List.forall₂_map_right_iff.mpr (List.forall₂_same.mpr fun _ there => h.targetFor there path)⟩

theorem Referrers.groups (h : Referrers w d m ids) {named : List (Option Value × List String)}
    (each : Named w d path ids named) : filed [] ((ids.map Value.object).zip (named.map (·.1))) =
      (Loader.modelsNamed w d ids).map fun i => (.model i, (naming w d ids i).map .object) := by
  rw [h.named_eq each, ← filed_models, List.map_map]
  rfl

/-- What is warned of all objects. -/
theorem Referrers.warnings (h : Referrers w d m ids) {named : List (Option Value × List String)}
    (each : Named w d path ids named) :
    named.flatMap (·.2) = (ids.filter (Astray w d ·)).map (complaint w d path) := by
  rw [h.named_eq each, List.flatMap_map]
  clear * -
  induction ids with
  | nil => rfl
  | cons id rest ih =>
    by_cases astray : Astray w d id <;> simp [List.flatMap_cons, astray, ih]

/-- The statements for the objects whose tags stand for a model: one for each piece of their distinct
identifiers. -/
def piecesFor (w : World τ) (d : Descriptor) (ids : List ObjectId) (n : Int) (i : ModelId) :
    List (List Value) :=
  Relata.pieces (n.toNat - 1) (distinctKeys ((naming w d ids i).map (referenceOf w d)))

/-- The identifier that a row has. -/
def rowId (row : Row) : Value := (row.lookup "id").getD .null

/-- The row that an object refers to by itself, with its model: of the rows of the model that its tag stands
for, the one that has its identifier. -/
def referent (w : World τ) (d : Descriptor) (table : ModelId → List Row) (id : ObjectId) :
    Option (ModelId × Row) :=
  (modelNamed w d id).bind fun i => (belonging rowId (table i) (referenceOf w d id)).head?.map (i, ·)

/-- What an object refers to does not depend on what else comes to be. -/
theorem Referrers.modelsNamed (h : Referrers w d m ids) (grows : w.Grows w') :
    modelsNamed w' d ids = modelsNamed w d ids := by
  unfold Loader.modelsNamed
  rw [List.filterMap_congr fun id there => h.modelNamed there grows]

theorem Referrers.piecesFor (h : Referrers w d m ids) (grows : w.Grows w') (n : Int) (i : ModelId) :
    piecesFor w' d ids n i = piecesFor w d ids n i := by
  have same : naming w' d ids i = naming w d ids i :=
    List.filter_congr fun id there => by rw [h.modelNamed there grows]
  have keys : (naming w d ids i).map (referenceOf w' d) = (naming w d ids i).map (referenceOf w d) :=
    List.map_congr_left fun id there => h.columnOf (List.mem_filter.mp there).1 grows _
  unfold Loader.piecesFor
  rw [same, keys]

theorem Referrers.referent (h : Referrers w d m ids) (there : id ∈ ids) (grows : w.Grows w')
    (table : ModelId → List Row) : referent w' d table id = referent w d table id := by
  unfold Loader.referent referenceOf
  rw [h.modelNamed there grows, h.columnOf there grows]

theorem Referrers.astray (h : Referrers w d m ids) (there : id ∈ ids) (grows : w.Grows w') :
    Astray w' d id ↔ Astray w d id := by
  unfold Astray tagOf
  rw [h.modelNamed there grows, h.columnOf there grows]

/-- To begin to load a relation changes nothing that is told of an object. -/
theorem Referrers.complaint_begun (h : Referrers w d m ids) (there : id ∈ ids) (name : String) :
    complaint (begun w ids name) d path id = complaint w d path id := by
  have begins := w.grows_begun ids name
  have alike (id : ObjectId) : ((begun w ids name).object? id).map (fun e => (e.model, e.fields, e.extra)) =
      (w.object? id).map fun e => (e.model, e.fields, e.extra) := by
    cases found : w.object? id with
    | some e =>
      obtain ⟨e', found', model, fields, extra⟩ := begins.object found
      simp [found', model, fields, extra]
    | none =>
      rw [Env.object?, Array.getElem?_eq_none_iff] at found
      rw [Env.object?, Array.getElem?_eq_none_iff.mpr (World.size_changed w _ ▸ found)]
  have collections : (begun w ids name).collections = w.collections := by
    rw [begun, w.changed_eq]
  unfold complaint Env.unresolved tagOf
  rw [h.columnOf there begins, Env.shown_congr begins.lookup alike collections,
    Env.className_congr begins.lookup alike]

theorem Referrers.complaints_begun (h : Referrers w d m ids) (name : String) :
    (ids.filter (Astray (begun w ids name) d ·)).map (complaint (begun w ids name) d path) =
      (ids.filter (Astray w d ·)).map (complaint w d path) := by
  rw [List.filter_congr fun id there => decide_eq_decide.mpr (h.astray there (w.grows_begun ids name))]
  exact List.map_congr_left fun id there => h.complaint_begun (List.mem_filter.mp there).1 name

theorem Referrers.sub {some_ : List ObjectId} (h : Referrers w d m ids) (among : ∀ id ∈ some_, id ∈ ids) :
    Referrers w d m some_ where
  class_ id there := h.class_ id (among id there)
  known := h.known
  tagged := h.tagged
  identified := h.identified
  tags id there := h.tags id (among id there)
  aliases := h.aliases
  keys id there := h.keys id (among id there)

end Loader

end Relata
