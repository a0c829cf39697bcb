import Relata.Proofs.Loading.Grouped
import Relata.Proofs.Relation.Resolved
import Relata.Proofs.Store.Slots

/-!
What stays of loaded relations. A later world retains an earlier one if its objects, with what they
have loaded, and its collections are still there. A path is followed on an object if its first segment
is loaded on the object, its second on every object that the first one holds, and so on; what is
followed once is followed in every world that retains the earlier one.
-/

namespace Relata

namespace Env

variable (env : Env)

/-- If a value is an object, there is such an object. -/
def Present (v : Value) : Prop := ∀ id, v = .object id → id < env.objects.size

/-- A value that holds nothing but what is there. -/
structure Bears (v : Value) : Prop where
  collection : ∀ id, v = .collection id → id < env.collections.size
  held : ∀ x ∈ env.heldBy v, env.Present x

/-- Relations hold nothing but what is there. -/
def Anchored : Prop :=
  ∀ {id e name v}, env.object? id = some e → e.value? (.text name) = some v → env.Bears v

/-- The relation of that name that the class of a value has. -/
def relationOn? (v : Value) (name : String) : Option Descriptor :=
  (env.modelOfValue? v).bind fun m => (env.resolve m (.text name)).toOption.join

/-- The segments lead all the way on from a value: the first is a relation of its class and loaded on
it, the next one on each object that the first one holds, and so on. Null leads nowhere. Values that
were reached over a relation whose target depends on the row are passed over if their class has no
such relation. -/
def Follows : Bool → List String → Value → Prop
  | _, [], _ => True
  | polymorphic, name :: rest, v => v.isNull = false →
    (polymorphic = true ∧ env.relationOn? v name = none) ∨
      ∃ d x, env.relationOn? v name = some d ∧ Loader.relationOf env v name = .ok x ∧
        ∀ o ∈ env.heldBy x, Follows (d.kind == .morphTo) rest o

end Env

theorem Loader.relationOf_eq_ok {env : Env} {v x : Value} {name : String} :
    relationOf env v name = .ok x ↔
      ∃ id e, v = .object id ∧ env.object? id = some e ∧ e.value? (.text name) = some x := by
  cases v with
  | object id =>
    unfold relationOf
    cases own : env.object? id with
    | none => simp [own]
    | some e => cases value : e.value? (.text name) <;> simp [own, value]
  | _ => simp [relationOf]

theorem Env.isLoadedOn_iff {env : Env} {v : Value} {name : String} :
    env.isLoadedOn (.text name) v = true ↔ ∃ x, Loader.relationOf env v name = .ok x := by
  simp only [Loader.relationOf_eq_ok]
  cases v with
  | object id =>
    simp only [isLoadedOn, Entity.isLoaded, Option.isSome_iff_exists, Option.any_eq_true]
    constructor
    · rintro ⟨e, own, x, value⟩
      exact ⟨x, id, e, rfl, own, value⟩
    · rintro ⟨x, _, e, ⟨rfl⟩, own, value⟩
      exact ⟨e, own, x, value⟩
  | _ => simp [isLoadedOn]

namespace Env

variable {env : Env}

/-- The class of a value that is there shows in what it is grouped by. -/
theorem modelOfValue?_of_classKey {v : Value} (there : env.Present v) :
    env.modelOfValue? v = match Loader.classKey env v with
      | .model id => env.catalog.model? id
      | .named _ => none := by
  cases v with
  | object id =>
    have own := Array.getElem?_eq_getElem (there id rfl)
    change env.object? id = _ at own
    simp [modelOfValue?, Loader.classKey, own, modelOf?]
  | _ => rfl

/-- Objects that are there, at least one, and all of the class of the first. -/
structure OneClass (env : Env) (members : List Value) : Prop where
  some_ : members ≠ []
  present : ∀ v ∈ members, env.Present v
  same : ∀ v ∈ members, env.modelOfValue? v = env.modelOfValue? (members.headD .null)

theorem oneClass_of_uniform {g : ClassKey × List Value} (h : Loader.Uniform env g)
    (present : ∀ v ∈ g.2, env.Present v) : env.OneClass g.2 := by
  refine ⟨h.1, present, fun v hv => ?_⟩
  obtain ⟨first, rest, own⟩ := List.exists_cons_of_ne_nil h.1
  have first_ : first ∈ g.2 := own ▸ .head _
  rw [own, List.headD_cons, modelOfValue?_of_classKey (present v hv),
    modelOfValue?_of_classKey (present first first_), h.2 v hv, h.2 first first_]

end Env

namespace World

variable {τ : Type}

/-- A later world in which the objects, with what they have loaded, and the collections of an earlier
one are still there. -/
structure Retains (w w' : World τ) : Prop where
  lookup : w'.toLookup = w.toLookup
  collections : ∀ {id : CollectionId} {c : List ObjectId}, w.collections[id]? = some c →
    w'.collections[id]? = some c
  objects : ∀ {id e}, w.object? id = some e → ∃ e', w'.object? id = some e' ∧ e'.model = e.model ∧
    ∀ name v, e.value? (.text name) = some v → e'.value? (.text name) = some v
  anchored : w.Anchored → w'.Anchored

variable {w w' w'' : World τ}

theorem present_of_size {v : Value} (h : w.Present v) (le : w.objects.size ≤ w'.objects.size) :
    w'.Present v := fun id own => Nat.lt_of_lt_of_le (h id own) le

theorem size_le_of_objects
    (h : ∀ {id e}, w.object? id = some e → ∃ e', w'.object? id = some e') :
    w.objects.size ≤ w'.objects.size := by
  refine Nat.le_of_not_lt fun lt => ?_
  obtain ⟨e', there⟩ := h (Array.getElem?_eq_getElem lt)
  exact Nat.lt_irrefl _ (Array.getElem?_eq_some_iff.mp there).1

/-- What a value holds is the same in a world that has the collection still. -/
theorem heldBy_of_collections
    (h : ∀ {id : CollectionId} {c : List ObjectId}, w.collections[id]? = some c →
      w'.collections[id]? = some c) {v : Value}
    (bears : w.Bears v) : w'.heldBy v = w.heldBy v := by
  cases v with
  | collection id =>
    have there := Array.getElem?_eq_getElem (bears.collection id rfl)
    simp [Env.heldBy, Env.collectionOf, h there, there]
  | _ => rfl

theorem bears_of_grown
    (collections : ∀ {id : CollectionId} {c : List ObjectId}, w.collections[id]? = some c →
      w'.collections[id]? = some c)
    (size : w.objects.size ≤ w'.objects.size) {v : Value} (h : w.Bears v) : w'.Bears v := by
  refine ⟨fun id own => ?_, fun x hx => ?_⟩
  · exact (Array.getElem?_eq_some_iff.mp
      (collections (Array.getElem?_eq_getElem (h.collection id own)))).1
  · rw [heldBy_of_collections collections h] at hx
    exact present_of_size (h.held x hx) size

/-- Objects that are there may be set on objects. -/
theorem bears_of_held {v : Value} (h : ∀ x ∈ v.held, ∃ id < w.objects.size, x = .object id) :
    w.Bears v := by
  cases v with
  | collection id =>
    obtain ⟨_, _, absurd⟩ := h _ (.head _)
    cases absurd
  | _ =>
    refine ⟨fun _ absurd => (nomatch absurd), fun x hx => ?_⟩
    obtain ⟨id, lt, rfl⟩ := h x hx
    rintro _ ⟨⟩
    exact lt

theorem bears_modified {v : Value} (h : w.Bears v) (id : ObjectId) (f : Entity → Entity) :
    (w.modified id f).Bears v :=
  @bears_of_grown _ w (w.modified id f) (fun there => there) (by simp [modified]) _ h

/-- What an object is set to is loaded on it, and what was loaded on any stays so. -/
theorem isLoadedOn_set {id : ObjectId} (w : World τ) {x : Value} {name : String} (v : Value)
    (h : w.isLoadedOn (.text name) x = true ∨ x = .object id ∧ id < w.objects.size) :
    (w.modified id (·.setRelation (.text name) v)).isLoadedOn (.text name) x = true := by
  have set (e : Entity) : (e.setRelation (.text name) v).isLoaded (.text name) = true := by
    simp [Entity.isLoaded]
  rcases h with loaded | ⟨rfl, lt⟩
  · cases x with
    | object i =>
      simp only [Env.isLoadedOn, object?_modified] at loaded ⊢
      split
      · cases own : w.object? i <;> simp_all
      · exact loaded
    | _ => cases loaded
  · have own := Array.getElem?_eq_getElem lt
    change w.object? id = _ at own
    simp [Env.isLoadedOn, own, set]

namespace Retains

/-- It is enough that each value which is loaded later was loaded before, or holds what is there. -/
theorem of_values (lookup : w'.toLookup = w.toLookup)
    (collections : ∀ {id : CollectionId} {c : List ObjectId}, w.collections[id]? = some c →
      w'.collections[id]? = some c)
    (objects : ∀ {id e}, w.object? id = some e → ∃ e', w'.object? id = some e' ∧
      e'.model = e.model ∧
        ∀ name v, e.value? (.text name) = some v → e'.value? (.text name) = some v)
    (values : ∀ {id e' name v}, w'.object? id = some e' → e'.value? (.text name) = some v →
      (∃ e, w.object? id = some e ∧ e.value? (.text name) = some v) ∨ w'.Bears v) :
    Retains w w' := by
  refine ⟨lookup, collections, objects, fun anchored id e' name v there loaded => ?_⟩
  rcases values there loaded with ⟨e, own, before⟩ | bears
  · exact bears_of_grown collections
      (size_le_of_objects fun there => (objects there).imp fun _ h => h.1) (anchored own before)
  · exact bears

theorem refl (w : World τ) : Retains w w :=
  ⟨rfl, id, fun there => ⟨_, there, rfl, fun _ _ => id⟩, id⟩

theorem trans (h : Retains w w') (h' : Retains w' w'') : Retains w w'' := by
  refine ⟨h'.lookup.trans h.lookup, fun there => h'.collections (h.collections there),
    fun there => ?_, fun anchored => h'.anchored (h.anchored anchored)⟩
  obtain ⟨e', there', model, loaded⟩ := h.objects there
  obtain ⟨e'', there'', model', loaded'⟩ := h'.objects there'
  exact ⟨e'', there'', model'.trans model, fun name v own => loaded' name v (loaded name v own)⟩

theorem size_le (h : Retains w w') : w.objects.size ≤ w'.objects.size :=
  size_le_of_objects fun there => (h.objects there).imp fun _ h => h.1

theorem present (h : Retains w w') {v : Value} (there : w.Present v) : w'.Present v :=
  present_of_size there h.size_le

theorem heldBy (h : Retains w w') {v : Value} (bears : w.Bears v) : w'.heldBy v = w.heldBy v :=
  heldBy_of_collections h.collections bears

/-! The changes that loading makes. -/

theorem registries (w : World τ) (registries : Array Registry) :
    Retains w { w with registries := registries } :=
  of_values rfl id (fun there => ⟨_, there, rfl, fun _ _ => id⟩) fun there own =>
    .inl ⟨_, there, own⟩

theorem warnings (w : World τ) (warnings : List String) :
    Retains w { w with warnings := warnings } :=
  of_values rfl id (fun there => ⟨_, there, rfl, fun _ _ => id⟩) fun there own =>
    .inl ⟨_, there, own⟩

theorem extended (w : World τ) {e : Entity} (bare : e.slots = []) : Retains w (w.extended e) := by
  refine of_values rfl id (fun there => ⟨_, object?_extended there, rfl, fun _ _ => id⟩)
    fun {id e' name v} there own => .inl ⟨e', ?_, own⟩
  have pushed : (w.objects.push e)[id]? = some e' := there
  rw [Array.getElem?_push] at pushed
  split at pushed
  · cases pushed
    simp [Entity.value?, Entity.slot?, bare, Value.lookup?] at own
  · exact pushed

theorem adopted (w : World τ) (members : List ObjectId) : Retains w (w.adopted members) := by
  refine of_values rfl collections_adopted (fun {id e} there => ?_) fun {id e' name v} there own => ?_
  · refine ⟨_, by rw [object?_adopted, there]; rfl, ?_, fun name v own => ?_⟩ <;> dsimp only <;>
      split <;> trivial
  · rw [object?_adopted] at there
    obtain ⟨e, before, rfl⟩ := Option.map_eq_some_iff.mp there
    refine .inl ⟨e, before, ?_⟩
    split at own <;> exact own

/-- A change of an object that leaves its class and what it has loaded. -/
theorem modified (w : World τ) (id : ObjectId) {f : Entity → Entity}
    (model : ∀ e, (f e).model = e.model)
    (values : ∀ e name, (f e).value? (.text name) = e.value? (.text name)) :
    Retains w (w.modified id f) := by
  have changed (i : ObjectId) : (w.modified id f).object? i =
      (w.object? i).map fun e => if id = i then f e else e := by
    rw [object?_modified]
    split <;> simp
  refine of_values rfl (fun there => there) (fun {i e} there => ?_) fun {i e' name v} there own => ?_
  · refine ⟨_, by rw [changed, there]; rfl, ?_, fun name v own => ?_⟩
    · split
      · exact model e
      · rfl
    · split
      · rwa [values]
      · exact own
  · rw [changed] at there
    obtain ⟨e, before, rfl⟩ := Option.map_eq_some_iff.mp there
    refine .inl ⟨e, before, ?_⟩
    split at own
    · rwa [values] at own
    · exact own

/-- A relation may be set that was not loaded before. -/
theorem set (h : Retains w w') {id : ObjectId} {name : String} {v : Value}
    (fresh : ∀ e, w.object? id = some e → e.value? (.text name) = none) (bears : w'.Bears v) :
    Retains w (w'.modified id (·.setRelation (.text name) v)) := by
  have changed (i : ObjectId) : (w'.modified id (·.setRelation (.text name) v)).object? i =
      (w'.object? i).map fun e => if id = i then e.setRelation (.text name) v else e := by
    rw [object?_modified]
    split <;> simp
  refine ⟨h.lookup, h.collections, fun {i e} there => ?_, fun anchored i e' name' v' there own => ?_⟩
  · obtain ⟨e', later, model, values⟩ := h.objects there
    refine ⟨_, by rw [changed, later]; rfl, ?_, fun name' v' own => ?_⟩
    · split <;> exact model
    · split
      · next here =>
        have other : name' ≠ name := by
          rintro rfl
          rw [fresh e (here ▸ there)] at own
          cases own
        rw [Entity.value?_setRelation_text, if_neg other]
        exact values name' v' own
      · exact values name' v' own
  · rw [changed] at there
    obtain ⟨e, before, rfl⟩ := Option.map_eq_some_iff.mp there
    split at own
    · rw [Entity.value?_setRelation_text] at own
      split at own
      · exact Option.some.inj own ▸ bears_modified bears id _
      · exact bears_modified (h.anchored anchored before own) id _
    · exact bears_modified (h.anchored anchored before own) id _

/-- The class of an object stays. -/
theorem modelOfValue? (h : Retains w w') {v : Value} (there : w.Present v) :
    w'.modelOfValue? v = w.modelOfValue? v := by
  cases v with
  | object id =>
    have own := Array.getElem?_eq_getElem (there id rfl)
    change w.object? id = _ at own
    obtain ⟨e', later, model, -⟩ := h.objects own
    simp [Env.modelOfValue?, own, later, Env.modelOf?, model, h.lookup]
  | _ => rfl

theorem relationOn? (h : Retains w w') {v : Value} (there : w.Present v) (name : String) :
    w'.relationOn? v name = w.relationOn? v name := by
  rw [Env.relationOn?, h.modelOfValue? there, h.lookup]
  rfl

theorem relationOf (h : Retains w w') {v x : Value} {name : String}
    (loaded : Loader.relationOf w.toEnv v name = .ok x) :
    Loader.relationOf w'.toEnv v name = .ok x := by
  obtain ⟨id, e, rfl, own, value⟩ := Loader.relationOf_eq_ok.mp loaded
  obtain ⟨e', later, -, values⟩ := h.objects own
  exact Loader.relationOf_eq_ok.mpr ⟨id, e', rfl, later, values name x value⟩

theorem isLoadedOn (h : Retains w w') {v : Value} {name : String}
    (loaded : w.isLoadedOn (.text name) v = true) : w'.isLoadedOn (.text name) v = true :=
  Env.isLoadedOn_iff.mpr ((Env.isLoadedOn_iff.mp loaded).imp fun _ own => h.relationOf own)

theorem oneClass (h : Retains w w') {members : List Value} (own : w.OneClass members) :
    w'.OneClass members := by
  refine ⟨own.some_, fun v hv => h.present (own.present v hv), fun v hv => ?_⟩
  have first : members.headD .null ∈ members := by
    obtain ⟨_, _, rfl⟩ := List.exists_cons_of_ne_nil own.some_
    exact .head _
  rw [h.modelOfValue? (own.present v hv), h.modelOfValue? (own.present _ first), own.same v hv]

/-- What is followed stays so: by induction on the segments. -/
theorem follows (h : Retains w w') (anchored : w.Anchored) {segments : List String} :
    ∀ {polymorphic : Bool} {v : Value}, w.Present v → w.Follows polymorphic segments v →
      w'.Follows polymorphic segments v := by
  induction segments with
  | nil => exact fun _ _ => trivial
  | cons name rest ih =>
    intro polymorphic v there followed some_
    rw [h.relationOn? there]
    refine (followed some_).imp id fun ⟨d, x, own, loaded, below⟩ => ?_
    obtain ⟨id, e, -, there, value⟩ := Loader.relationOf_eq_ok.mp loaded
    have bears := anchored there value
    refine ⟨d, x, own, h.relationOf loaded, fun o ho => ?_⟩
    rw [h.heldBy bears] at ho
    exact ih (bears.held o ho) (below o ho)

end Retains

end World

end Relata
