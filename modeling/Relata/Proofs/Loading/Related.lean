import Relata.Proofs.Loading.Keyless
import Relata.Proofs.Query.Morphed
import Relata.Proofs.Query.Shown
import Relata.Proofs.Sql.Sifted

/-!
The query for the rows related to one object, and the one by which a load asks for them. They are built in
different ways: the load compares with a list of keys, tags on the key of the parent and may be restricted
to columns. Main statement: where the load's query can be built, so can the other one, and whatever the
tables hold, the same rows satisfy both.
-/

namespace Relata

open Sql (Clause Contents Select Test)

namespace World

variable {τ : Type}

/-- The attribute of the object has that value, and no load changes it. -/
def Bears (w : World τ) (id : ObjectId) (name : String) (v : Value) : Prop :=
  ∀ w', w.Grows w' → w'.propertyOrNull (.object id) name = .ok v

theorem Bears.later {w w' : World τ} {id : ObjectId} {name : String} {v : Value} (h : w.Bears id name v)
    (grows : w.Grows w') : w'.Bears id name v := fun w'' more => h w'' (grows.trans more)

theorem Bears.read {w : World τ} {id : ObjectId} {e : Entity} {name : String} {v : Value}
    (h : w.Bears id name v) (there : w.object? id = some e) :
    (do return (← w.propertyOf? e name).getD .null : Except Error Value) = .ok v := by
  have read := h w (.refl w)
  rw [Env.propertyOrNull, Env.property?, there] at read
  change (w.propertyOf? e name).map _ = _ at read
  cases found : w.propertyOf? e name with
  | error e =>
    rw [found] at read
    cases read
  | ok o =>
    rw [found] at read
    exact read

/-- The attribute of an object that stands in a column. -/
theorem bears_of_column {w : World τ} {id : ObjectId} {e : Entity} {m : Model} {name : String}
    (there : w.object? id = some e) (known : w.catalog.model? e.model = some m) (plain : m.Plain name) :
    w.Bears id name (e.column name) := fun _ grows =>
  ((holds_of_object? there).later grows).propertyOrNull (grows.lookup ▸ known) plain

/-- The model of the rows that an object is related to: the one of the relation, or the one that the tag of
the object names. -/
def LeadsTo (w : World τ) (d : Descriptor) (id : ObjectId) (related : Model) : Prop :=
  if d.kind = .morphTo then ∃ tag target, w.Bears id (Descriptor.written d.typeColumn) tag ∧
    tag.isNull = false ∧ w.tags.modelFor w.catalog tag = .ok target ∧ w.asModel target = .ok related
  else w.relatedModel d = .ok related

theorem LeadsTo.later {w w' : World τ} {d : Descriptor} {id : ObjectId} {related : Model}
    (h : w.LeadsTo d id related) (grows : w.Grows w') : w'.LeadsTo d id related := by
  unfold LeadsTo at *
  rw [grows.lookup]
  split
  · next kind =>
    rw [if_pos kind] at h
    obtain ⟨tag, target, bears, own⟩ := h
    exact ⟨tag, target, bears.later grows, own⟩
  · next kind => rwa [if_neg kind] at h

/-- What the tag of the object names. -/
theorem LeadsTo.targetFor {w : World τ} {d : Descriptor} {id : ObjectId} {related : Model}
    (h : w.LeadsTo d id related) (kind : d.kind = .morphTo) (path : String) :
    ∃ i, w.asModel (.model i) = .ok related ∧ w.targetFor d path (.object id) = .ok (some (.model i), []) := by
  rw [LeadsTo, if_pos kind] at h
  obtain ⟨tag, target, tagged, given, named, known⟩ := h
  obtain ⟨i, rfl⟩ : ∃ i, target = .model i := by
    cases target <;> first | exact ⟨_, rfl⟩ | cases known
  refine ⟨i, known, ?_⟩
  rw [Env.targetFor, tagged w (.refl w)]
  change (if tag.isNull then _ else w.tags.modelFor w.catalog tag >>= _) = _
  rw [if_neg (by simp [given]), named]
  rfl

end World

/-- The column in which related rows, or the rows joined with them, carry the key. -/
def Lookup.linkColumn (l : Lookup) (d : Descriptor) (related : Model) : Except Error String :=
  let name := Descriptor.written
  match d.kind with
  | .hasOne | .hasMany => .ok (name d.foreignKey)
  | .belongsTo => .ok (name d.ownerKey)
  | .morphOne | .morphMany | .morphOneOfMany => .ok (name d.idColumn)
  | .belongsToMany => .ok s!"{name d.table}.{name d.foreignPivotKey}"
  | .hasOneThrough | .hasManyThrough => do
    return s!"{(← l.throughModel d).table}.{name d.firstKey}"
  | .morphTo => .ok s!"{related.table}.id"

theorem Env.linkColumn_of_linkage {env : Env} {d : Descriptor} {parent related : Model} {keys : List Value}
    {l : Linkage} (h : env.linkage d parent related keys = .ok l) :
    ∃ column, env.linkColumn d related = .ok column ∧ .among false column keys ∈ l.tests := by
  unfold linkage at h
  unfold Lookup.linkColumn
  dsimp only at h ⊢
  cases kind : d.kind with
  | hasOne | hasMany | belongsTo | belongsToMany =>
    rw [kind] at h
    obtain rfl := Except.ok.inj h
    exact ⟨_, rfl, .head _⟩
  | morphOne | morphMany | morphOneOfMany =>
    rw [kind] at h
    obtain ⟨tags, -, h⟩ := ok_of_bind h
    obtain rfl := Except.ok.inj h
    exact ⟨_, rfl, .tail _ (.head _)⟩
  | hasOneThrough | hasManyThrough =>
    rw [kind] at h
    obtain ⟨through, found, h⟩ := ok_of_bind h
    obtain rfl := Except.ok.inj h
    exact ⟨_, by rw [found]; rfl, .head _⟩
  | morphTo =>
    rw [kind] at h
    cases h

namespace Loader

variable {self : Loader} {env env' : Env} {d : Descriptor} {m related : Model} {path : String}
  {keys : List Value} {q : Query} {own : List Clause}

/-- The query by which a load asks for the rows with such keys of the model that objects lead to. -/
def asking (self : Loader) (env : Env) (d : Descriptor) (m related : Model) (path : String)
    (keys : List Value) : Except Error Query :=
  if d.kind = .morphTo then self.targetQuery env d related path keys else self.chunkQuery env d m path keys

/-- Nothing is refined without a callback. -/
theorem refined_of_null (free : self.callbackFor path = .null) (q : Query) :
    self.refined env q path = .ok q := by
  unfold callbackFor at free
  unfold refined
  cases found : Value.lookup? (.text path) self.callbacks with
  | none => rfl
  | some v =>
    rw [found] at free
    obtain rfl : v = .null := free
    rfl

/-- The query for targets is a new one on their model, with the test of the identifiers, the conditions of
the relation and other columns. -/
theorem targetQuery_parts (free : self.callbackFor path = .null) (adds : env.AddsOnly d.constraints related own)
    (built : self.targetQuery env d related path keys = .ok q) :
    ∃ base shown, related.query = .ok base ∧
      q = ((base.adding [.leaf .and (.among false s!"{related.table}.id" keys)]).adding own).showing shown := by
  unfold targetQuery at built
  dsimp only at built
  obtain ⟨base, new, built⟩ := ok_of_bind built
  obtain ⟨q', finished, refined⟩ := ok_of_bind built
  rw [refined_of_null free] at refined
  obtain rfl := Except.ok.inj refined
  obtain ⟨u, run⟩ := Build.ok_of_finish finished
  obtain ⟨⟨⟩, tested, testing, run⟩ := Build.ok_of_bind run
  have test : Build.whereIn .and false (.text s!"{related.table}.id") (.list keys) base =
      .ok () (base.adding [.leaf .and (.among false s!"{related.table}.id" keys)]) := rfl
  rw [test] at testing
  injection testing with _ same
  subst same
  obtain ⟨_, recorded, recording, run⟩ := Build.ok_of_bind run
  rw [Build.ok_discard (adds.run new (base.beside_adding _))] at recording
  cases recording
  split at run
  · obtain ⟨columns, _, read, run⟩ := Build.ok_of_bind run
    obtain ⟨-, rfl⟩ := Build.ok_of_ofExcept read
    cases run
    exact ⟨base, _, new, rfl⟩
  · cases run
    exact ⟨base, _, new, (Query.showing_self _).symm⟩

theorem junction_of_conditions {tests : List Test} (only_and : ∀ c ∈ own, c.junction = .and) :
    ∀ c ∈ tests.map (Sql.Condition.leaf .and) ++ own, c.junction = .and :=
  List.forall_mem_append.mpr ⟨Sql.Condition.junction_of_leaves, only_and⟩

/-- The load's query asks for the key, and joins whatever else it asks for by AND. -/
theorem asking_links (free : self.callbackFor path = .null)
    (leads : d.kind ≠ .morphTo → env.relatedModel d = .ok related)
    (adds : env.AddsOnly d.constraints related own) (built : self.asking env d m related path keys = .ok q) :
    q.Sifts related.source ∧ (∀ c ∈ q.select.conditions, c.junction = .and) ∧
      ∃ column, env.linkColumn d related = .ok column ∧
        .leaf .and (.among false column keys) ∈ q.select.conditions := by
  unfold asking at built
  split at built
  · next kind =>
    obtain ⟨base, shown, new, rfl⟩ := targetQuery_parts free adds built
    obtain ⟨sifts, none_, -⟩ := Model.sifts_of_query new
    have conditions : (((base.adding [.leaf .and
        (.among false s!"{related.table}.id" keys)]).adding own).showing shown).select.conditions = [.leaf .and (.among false s!"{related.table}.id" keys)] ++ own := by
      simp [Query.showing, Query.adding, none_]
    refine ⟨((sifts.adding _).adding own).showing shown, ?_, s!"{related.table}.id", ?_, ?_⟩
    · rw [conditions]
      exact @junction_of_conditions _ [_] adds.joined
    · rw [Lookup.linkColumn, kind]
    · rw [conditions]
      exact .head _
  · next kind =>
    obtain ⟨q', queried, refined⟩ := ok_of_bind built
    rw [refined_of_null free] at refined
    obtain rfl := Except.ok.inj refined
    obtain ⟨sifts, l, linked, conditions⟩ := Env.relationQuery_sifts (leads kind) adds queried
    obtain ⟨column, named, there⟩ := Env.linkColumn_of_linkage linked
    refine ⟨sifts, ?_, column, named, ?_⟩
    · rw [conditions]
      exact junction_of_conditions adds.joined
    · rw [conditions]
      exact List.mem_append_left _ (List.mem_map_of_mem (List.mem_append_left _ there))

end Loader

/-- Both queries do no more than to sift the rows of that source, and whatever tables hold, the same rows
satisfy them. -/
structure Query.Agrees (p q : Query) (source : Sql.Source) : Prop where
  left : p.Sifts source
  right : q.Sifts source
  kept : ∀ contents : Contents, contents.Coherent → p.select.kept contents = q.select.kept contents

namespace Deed

variable {τ : Type} {w : World τ} {id : ObjectId} {e : Entity} {m related : Model} {name : String}
  {d : Descriptor} {key : Value} {own : List Clause}

section

variable (there : w.object? id = some e) (class_ : w.catalog.model? e.model = some m)
  (required : w.require m (.text name) = .ok d)
include there class_ required

/-- Where the model is fixed, the query for the rows related to one object is the one for its key. -/
theorem related_of_fixed (fixed : d.kind ≠ .morphTo)
    (bears : w.Bears id (Descriptor.written d.parentAttribute) key)
    {q : Query} (built : w.relationQuery d m [key] .null false = .ok q) :
    Deed.related w.toEnv id (.text name) = .ok (.other q) := by
  have own : w.asModel (.model e.model) = .ok m := by simp [Lookup.asModel, class_]
  unfold Deed.related
  rw [there]
  change (w.asModel (.model e.model) >>= _) = _
  rw [own]
  change (w.require m (.text name) >>= _) = _
  rw [required]
  change (if d.kind == .morphTo then _ else _) = _
  rw [if_neg (by simpa using fixed)]
  change ((do return (← w.propertyOf? e _).getD .null : Except Error Value) >>= _) = _
  rw [bears.read there]
  change (w.relationQuery d m [key] .null false >>= _) = _
  rw [built]
  rfl

/-- Where the tag of the object names the model, it is a new query on that model with a test of the identifier
and the conditions of the relation. -/
theorem related_of_tagged (kind : d.kind = .morphTo)
    (bears : w.Bears id (Descriptor.written d.parentAttribute) key)
    (given : key.isNull = false) (leads : w.LeadsTo d id related) (adds : w.AddsOnly d.constraints related own)
    {base : Query} (new : related.query = .ok base) :
    Deed.related w.toEnv id (.text name) =
      .ok (.other ((base.adding [.leaf .and (.compare s!"{related.table}.id" "=" key)]).adding own)) := by
  rw [World.LeadsTo, if_pos kind] at leads
  obtain ⟨tag, target, tagged, given_, named, known⟩ := leads
  rw [Descriptor.parentAttribute, kind] at bears
  have own_ : w.asModel (.model e.model) = .ok m := by simp [Lookup.asModel, class_]
  have some_ : target.isNull = false := by
    cases target <;> first | rfl | cases known
  have tested : Build.comparison .and (.text s!"{related.table}.id") (some key) none base =
      .ok (.leaf .and (.compare s!"{related.table}.id" "=" key)) base := by
    rw [Build.comparison_eq_ok, Test.holding, if_neg (by simp [given])]
  have run : (do
      Build.addCondition (← Build.comparison .and (.text s!"{related.table}.id") (some key) none)
      w.chain d.constraints) base =
        .ok .self ((base.adding [.leaf .and (.compare s!"{related.table}.id" "=" key)]).adding own) :=
    Build.bind_eq_ok tested (Build.bind_eq_ok (a := ⟨⟩) rfl (adds.run new (base.beside_adding _)))
  unfold Deed.related
  rw [there]
  change (w.asModel (.model e.model) >>= _) = _
  rw [own_]
  change (w.require m (.text name) >>= _) = _
  rw [required]
  change (if d.kind == .morphTo then _ else _) = _
  rw [if_pos (by simp [kind])]
  change ((do return (← w.propertyOf? e _).getD .null : Except Error Value) >>= _) = _
  rw [tagged.read there]
  change (if tag.isNull then _ else w.tags.modelFor w.catalog tag >>= _) = _
  rw [if_neg (by simp [given_]), named]
  change (if target.isNull then _ else _) = _
  rw [if_neg (by simp [some_])]
  rw [known]
  change (related.query >>= _) = _
  rw [new]
  change ((do return (← w.propertyOf? e _).getD .null : Except Error Value) >>= _) = _
  rw [bears.read there]
  change Except.bind (.ok key) _ = _
  dsimp only [Except.bind, EStateM.run]
  rw [run]
  rfl

/-- Where a load can ask for the rows that an object is related to, its query agrees with the one for the rows
related to this object alone. -/
theorem related_agrees {self : Loader} {w' : World τ} {path : String} {q : Query} (grows : w.Grows w')
    (free : self.callbackFor path = .null) (leads : w.LeadsTo d id related)
    (bears : w.Bears id (Descriptor.written d.parentAttribute) key) (given : key.isNull = false)
    (recorded : ∀ w', w.Grows w' → w'.AddsOnly d.constraints related own)
    (built : self.asking w'.toEnv d m related path [key] = .ok q) :
    ∃ p, Deed.related w.toEnv id (.text name) = .ok (.other p) ∧ p.Agrees q related.source := by
  have here := recorded w (.refl w)
  have later := recorded w' grows
  unfold Loader.asking at built
  split at built
  · next kind =>
    obtain ⟨base, shown, new, rfl⟩ := Loader.targetQuery_parts free later built
    obtain ⟨sifts, none_, -⟩ := Model.sifts_of_query new
    refine ⟨_, related_of_tagged there class_ required kind bears given leads here new,
      (sifts.adding _).adding own, ((sifts.adding _).adding own).showing shown, fun contents coherent => ?_⟩
    -- The tests are different, but of each row one is as true as the other.
    have conditions (t : Test) : ((base.adding [.leaf .and t]).adding own).select.conditions =
        .leaf .and t :: own := by
      simp [Query.adding, none_]
    refine List.filter_congr fun row among => ?_
    exact Select.keeps_congr (conditions _) (conditions _) here.joined rfl
      (coherent _ _ row among _ key).symm
  · next kind =>
    rw [World.LeadsTo, if_neg kind] at leads
    obtain ⟨q', queried, refined⟩ := ok_of_bind built
    rw [Loader.refined_of_null free] at refined
    obtain rfl := Except.ok.inj refined
    have leads' : w'.relatedModel d = .ok related := grows.lookup ▸ leads
    obtain ⟨sifts, -⟩ := Env.relationQuery_sifts leads' later queried
    obtain ⟨shown, queried'⟩ := Env.relationQuery_showing grows.lookup.symm leads' later here queried
    exact ⟨_, related_of_fixed there class_ required kind bears queried', sifts.showing shown, sifts,
      fun _ _ => rfl⟩

end

end Deed

end Relata
