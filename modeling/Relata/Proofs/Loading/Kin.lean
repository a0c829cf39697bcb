import Relata.Proofs.Loading.Launch
import Relata.Proofs.Loading.Manner
import Relata.Proofs.Registry.Marks

/-!
What a load on a few objects does to them and to the marks of their rows, seen from the world in which
it began. Its objects keep their class, their columns and their collection; relations change on them
only where they may, and are loaded where they must be; and no more is marked for their rows than
what may be. Whoever runs beside the load leaves its objects alone.
-/

namespace Relata

open Act (Meets Ends)

namespace Entity

/-- An object later on: relations hold what they held, unless they may hold something else, and those
that must be loaded are. -/
structure Kin (may must : String → Prop) (e e' : Entity) : Prop where
  model : e'.model = e.model
  fields : e'.fields = e.fields
  extra : e'.extra = e.extra
  collection : e'.collection = e.collection
  values : ∀ name, ¬ may name → e'.value? (.text name) = e.value? (.text name)
  loaded : ∀ name, must name → e'.isLoaded (.text name) = true

variable {may must : String → Prop} {e e' : Entity}

theorem Kin.id (h : e.Kin may must e') : e'.id = e.id := by rw [Entity.id, h.fields, Entity.id]

theorem Kin.weaken (h : e.Kin may must e') {may' must' : String → Prop}
    (more : ∀ name, may name → may' name) (less : ∀ name, must' name → must name) :
    e.Kin may' must' e' :=
  ⟨h.model, h.fields, h.extra, h.collection,
    fun name still => h.values name fun own => still (more name own),
    fun name own => h.loaded name (less name own)⟩

/-- To begin loading a relation, or to give it up, changes nothing that is held. -/
theorem Kin.beginLoading (h : e.Kin may must e') (name : String) :
    e.Kin may must (e'.beginLoading (.text name)) := by
  refine ⟨(model_beginLoading e' _).trans h.model, ?_, ?_, ?_, fun n still => ?_, fun n own => ?_⟩
  · rw [← h.fields, Entity.beginLoading]
    split <;> rfl
  · rw [← h.extra, Entity.beginLoading]
    split <;> rfl
  · rw [← h.collection, Entity.beginLoading]
    split <;> rfl
  · rw [value?_beginLoading, h.values n still]
  · simpa [isLoaded] using h.loaded n own

theorem Kin.abandonLoading (h : e.Kin may must e') (name : String) :
    e.Kin may must (e'.abandonLoading (.text name)) := by
  refine ⟨(model_abandonLoading e' _).trans h.model, ?_, ?_, ?_, fun n still => ?_, fun n own => ?_⟩
  · rw [← h.fields, Entity.abandonLoading]
    split <;> rfl
  · rw [← h.extra, Entity.abandonLoading]
    split <;> rfl
  · rw [← h.collection, Entity.abandonLoading]
    split <;> rfl
  · rw [value?_abandonLoading, h.values n still]
  · simpa [isLoaded] using h.loaded n own

theorem Kin.setRelation (h : e.Kin may must e') {name : String} (own : may name) (v : Value) :
    e.Kin may (fun n => must n ∨ n = name) (e'.setRelation (.text name) v) := by
  refine ⟨h.model, h.fields, h.extra, h.collection, fun n still => ?_, fun n loaded => ?_⟩
  · have other : n ≠ name := by
      rintro rfl
      exact still own
    rw [value?_setRelation_text, if_neg other, h.values n still]
  · rw [isLoaded, value?_setRelation_text]
    by_cases same : n = name
    · simp [same]
    · rw [if_neg same]
      exact h.loaded n (loaded.resolve_right same)

end Entity

/-- A value that is a key by itself, whatever objects there are. -/
def Value.Fixed (v : Value) : Prop := ∀ env : Env, env.key v = .ok v

/-- Objects that a load is about, the registry that it marks, and the world in which it begins. -/
structure Scene (τ : Type) where
  registry : RegistryId
  objects : List ObjectId
  start : World τ
  /-- Nobody else marks the rows of the objects. -/
  sole : Prop

namespace Scene

variable {τ : Type} (S : Scene τ)

def marks (w : World τ) : Marks := (w.registryOf S.registry).marks

/-- The row of one of the objects. -/
def IsRow (row : RowKey) : Prop :=
  ∃ id ∈ S.objects, ∃ e, S.start.object? id = some e ∧ row = ⟨.model e.model, e.id⟩

/-- The objects are there, with an identifier that can be a key, and the registry has a limit. -/
structure Proper : Prop where
  objects : ∀ id ∈ S.objects, ∃ e, S.start.object? id = some e ∧
    ∃ v, e.fields.lookup "id" = some v ∧ v.Fixed
  registry : S.registry < S.start.registries.size
  limit : Marks.IsLimit (S.marks S.start).limit

/-- Objects that were not there when the load began hold none of those that were. -/
def Closed (w : World τ) : Prop :=
  ∀ id e, S.start.objects.size ≤ id → w.object? id = some e →
    ∀ (name : String) v, e.value? (.text name) = some v →
      ∀ x ∈ v.held, ∃ i < w.objects.size, S.start.objects.size ≤ i ∧ x = .object i

/-- A later world: the objects hold what they held, unless they may hold something else, and what they
must hold; and no more is marked for them than what may be. -/
structure Kin (may must : ObjectId → String → Prop) (marked : String → Prop) (w : World τ) :
    Prop where
  lookup : w.toLookup = S.start.toLookup
  size : S.start.objects.size ≤ w.objects.size
  collections : ∀ {id : CollectionId} {c : List ObjectId}, S.start.collections[id]? = some c →
    w.collections[id]? = some c
  objects : ∀ id ∈ S.objects, ∀ e, S.start.object? id = some e →
    ∃ e', w.object? id = some e' ∧ e.Kin (may id) (must id) e'
  closed : S.Closed w
  registry : S.registry < w.registries.size
  limit : (S.marks w).limit = (S.marks S.start).limit
  marks : S.sole → ∀ row, S.IsRow row → ∀ name : String, (S.marks w).Marked row (.text name) →
    (S.marks S.start).Marked row (.text name) ∨ marked name

/-- What others do beside a load: they leave its objects alone, set nothing that was there when it
began on objects that were not, and, if the load is to be the only one to mark the rows of its objects,
mark nothing for them. -/
structure Apart (w w' : World τ) : Prop where
  lookup : w'.toLookup = w.toLookup
  size : w.objects.size ≤ w'.objects.size
  collections : ∀ {id : CollectionId} {c : List ObjectId}, w.collections[id]? = some c →
    w'.collections[id]? = some c
  objects : ∀ id ∈ S.objects, w'.object? id = w.object? id
  closed : S.Closed w → S.Closed w'
  registry : w.registries.size ≤ w'.registries.size
  limit : (S.marks w').limit = (S.marks w).limit
  marks : S.sole → ∀ row, S.IsRow row → ∀ name : String, (S.marks w').Marked row (.text name) →
    (S.marks w).Marked row (.text name)

variable {S} {may must : ObjectId → String → Prop} {marked : String → Prop} {w w' w'' : World τ}

theorem Apart.refl (w : World τ) : S.Apart w w :=
  ⟨rfl, Nat.le_refl _, id, fun _ _ => rfl, id, Nat.le_refl _, rfl, fun _ _ _ _ => id⟩

theorem Apart.trans (h : S.Apart w w') (h' : S.Apart w' w'') : S.Apart w w'' :=
  ⟨h'.lookup.trans h.lookup, h.size.trans h'.size, fun there => h'.collections (h.collections there),
    fun id own => (h'.objects id own).trans (h.objects id own), fun before => h'.closed (h.closed before),
    h.registry.trans h'.registry,
    h'.limit.trans h.limit,
    fun sole row own name there => h.marks sole row own name (h'.marks sole row own name there)⟩

/-- Others may change marks, if they add none for the rows of the objects. -/
theorem apart_remarked (w : World τ) {m : Marks} (limit : m.limit = (S.marks w).limit)
    (marks : ∀ row, S.IsRow row → ∀ name : String, m.Marked row (.text name) →
      (S.marks w).Marked row (.text name)) : S.Apart w (w.remarked S.registry m) := by
  refine ⟨rfl, Nat.le_refl _, id, fun _ _ => rfl, id, by simp [World.remarked], ?_,
    fun _ row own name there => ?_⟩
  · rcases w.marks_remarked S.registry S.registry m with same | ⟨-, same⟩
    · exact congrArg Marks.limit same
    · exact (congrArg Marks.limit same).trans limit
  · rcases w.marks_remarked S.registry S.registry m with same | ⟨-, same⟩
    · rwa [Scene.marks, same] at there
    · rw [Scene.marks, same] at there
      exact marks row own name there

/-- Others may mark any rows, unless nobody else is to. -/
theorem apart_marked (shared : ¬ S.sole) (w : World τ) (registry : RegistryId) (row : RowKey)
    (names : Names) :
    S.Apart w (w.remarked registry ((w.registryOf registry).marks.mark row names).1) := by
  refine ⟨rfl, Nat.le_refl _, id, fun _ _ => rfl, id, by simp [World.remarked], ?_,
    fun sole => absurd sole shared⟩
  rcases w.marks_remarked registry S.registry ((w.registryOf registry).marks.mark row names).1 with
    same | ⟨own, same⟩
  · exact congrArg Marks.limit same
  · exact (congrArg Marks.limit same).trans (own ▸ Marks.limit_mark _ row names)

/-- Others may file loads. -/
theorem apart_filed (w : World τ) (registry : RegistryId) (f : Flights → Flights) :
    S.Apart w (w.changeFlights registry f) := by
  have now : S.marks (w.changeFlights registry f) = S.marks w := w.marks_changeFlights registry _ f
  exact ⟨rfl, Nat.le_refl _, id, fun _ _ => rfl, id, by simp [World.changeFlights], by rw [now],
    fun _ _ _ _ => by rw [now]; exact id⟩

/-- What new objects hold was held before, or they are none. -/
theorem Closed.of_values (h : S.Closed w) (size : w.objects.size ≤ w'.objects.size)
    (values : ∀ {id : ObjectId} {e' : Entity} {name : String} {v : Value}, w'.object? id = some e' →
      e'.value? (.text name) = some v → ∃ e, w.object? id = some e ∧ e.value? (.text name) = some v) :
    S.Closed w' := by
  intro id e' new there name v held x hx
  obtain ⟨e, before, was⟩ := values there held
  obtain ⟨i, lt, rest⟩ := h id e new before name v was x hx
  exact ⟨i, lt.trans_le size, rest⟩

/-- The registry has been asked what is loaded: nothing but the order of marks has changed. -/
structure Consulted (registry : RegistryId) (w w' : World τ) : Prop where
  apart : ∀ S : Scene τ, S.registry = registry → S.Apart w w'
  flights : ∀ other, w.SameFlights other w'

theorem Consulted.refl (registry : RegistryId) (w : World τ) : Consulted registry w w :=
  ⟨fun _ _ => .refl w, fun _ => rfl⟩

theorem consulted_isLoaded (w : World τ) (registry : RegistryId) (row : RowKey) (names : Names) :
    Consulted registry w
      (w.remarked registry ((w.registryOf registry).marks.isLoaded row names).1) where
  apart := by
    rintro S rfl
    exact apart_remarked w (Marks.limit_isLoaded _ _ _) fun _ _ _ => Marks.marked_of_isLoaded
  flights := w.sameFlights_remarked registry _

namespace Kin

/-- What the world begins with. -/
theorem start (proper : S.Proper) : S.Kin (fun _ _ => False) (fun _ _ => False) (fun _ => False)
    S.start :=
  ⟨rfl, Nat.le_refl _, id, fun _ _ e own => ⟨e, own, rfl, rfl, rfl, rfl, fun _ _ => rfl,
    fun _ => False.elim⟩, fun _ _ new there => absurd (Array.getElem?_eq_some_iff.mp there).1
      (Nat.not_lt.mpr new), proper.registry, rfl, fun _ _ _ _ => .inl⟩

theorem weaken (h : S.Kin may must marked w) {may' must' : ObjectId → String → Prop}
    {marked' : String → Prop} (more : ∀ id name, may id name → may' id name)
    (less : ∀ id name, must' id name → must id name) (also_ : ∀ name, marked name → marked' name) :
    S.Kin may' must' marked' w where
  lookup := h.lookup
  size := h.size
  collections := h.collections
  objects id own e there := (h.objects id own e there).imp fun _ kin =>
    ⟨kin.1, kin.2.weaken (more id) (less id)⟩
  closed := h.closed
  registry := h.registry
  limit := h.limit
  marks sole row own name there := (h.marks sole row own name there).imp_right (also_ name)

theorem apart (h : S.Kin may must marked w) (others : S.Apart w w') : S.Kin may must marked w' where
  lookup := others.lookup.trans h.lookup
  size := h.size.trans others.size
  collections there := others.collections (h.collections there)
  objects id own e there := (h.objects id own e there).imp fun _ kin =>
    ⟨(others.objects id own).trans kin.1, kin.2⟩
  closed := others.closed h.closed
  registry := Nat.lt_of_lt_of_le h.registry others.registry
  limit := others.limit.trans h.limit
  marks sole row own name there :=
    h.marks sole row own name (others.marks sole row own name there)

/-! The changes that a load makes. -/

theorem extended (h : S.Kin may must marked w) {e : Entity} (bare : e.slots = []) :
    S.Kin may must marked (w.extended e) where
  lookup := h.lookup
  size := h.size.trans (by simp [World.extended])
  collections := h.collections
  objects id own e' there := (h.objects id own e' there).imp fun _ kin =>
    ⟨World.object?_extended kin.1, kin.2⟩
  closed := h.closed.of_values (by simp [World.extended]) fun {id e' name v} there held => by
    rw [World.extended, Env.object?, Array.getElem?_push] at there
    split at there
    · obtain rfl := Option.some.inj there
      simp [Entity.value?, Entity.slot?, bare, Value.lookup?] at held
    · exact ⟨e', there, held⟩
  registry := h.registry
  limit := h.limit
  marks := h.marks

theorem adopted (h : S.Kin may must marked w) {members : List ObjectId}
    (fresh : ∀ id ∈ members, S.start.objects.size ≤ id) :
    S.Kin may must marked (w.adopted members) where
  lookup := h.lookup
  size := h.size.trans (w.size_adopted members).ge
  collections there := World.collections_adopted (h.collections there)
  objects id own e there := by
    obtain ⟨e', later, kin⟩ := h.objects id own e there
    have old : id ∉ members := fun new =>
      Nat.not_lt.mpr (fresh id new) (Array.getElem?_eq_some_iff.mp there).1
    exact ⟨e', by rw [World.object?_adopted, later]; simp [old], kin⟩
  closed := h.closed.of_values (w.size_adopted members).ge fun {id e' name v} there held => by
    obtain ⟨e, before, rfl⟩ := Option.map_eq_some_iff.mp (World.object?_adopted w members id ▸ there)
    refine ⟨e, before, ?_⟩
    split at held
    · exact held
    · exact held
  registry := h.registry
  limit := h.limit
  marks := h.marks

theorem warned (h : S.Kin may must marked w) (warnings : List String) :
    S.Kin may must marked { w with warnings := warnings } :=
  ⟨h.lookup, h.size, h.collections, h.objects, h.closed, h.registry, h.limit, h.marks⟩

/-- A change of one object. -/
theorem modified (h : S.Kin may must marked w) {i : ObjectId} {f : Entity → Entity}
    {must' : ObjectId → String → Prop}
    (changed : i ∈ S.objects →
      ∀ e e' : Entity, e.Kin (may i) (must i) e' → e.Kin (may i) (must' i) (f e'))
    (others : ∀ id, id ≠ i → ∀ name, must' id name → must id name)
    (closed : S.start.objects.size ≤ i → ∀ (e : Entity) name v,
      (f e).value? (.text name) = some v → e.value? (.text name) = some v ∨ ∀ x ∈ v.held,
        ∃ j < w.objects.size, S.start.objects.size ≤ j ∧ x = .object j) :
    S.Kin may must' marked (w.modified i f) where
  lookup := h.lookup
  size := h.size.trans (by simp [World.modified])
  collections := h.collections
  objects id own e there := by
    obtain ⟨e', later, kin⟩ := h.objects id own e there
    rw [World.object?_modified, later]
    by_cases same : i = id
    · subst same
      exact ⟨_, if_pos rfl, changed own e e' kin⟩
    · exact ⟨e', if_neg same, kin.weaken (fun _ own => own) (others id (Ne.symm same))⟩
  closed id e' new there name v held := by
    have size : (w.modified i f).objects.size = w.objects.size := by simp [World.modified]
    rw [World.object?_modified] at there
    rw [size]
    split at there
    · next same =>
      subst same
      obtain ⟨e, before, rfl⟩ := Option.map_eq_some_iff.mp there
      exact (closed new e name v held).elim (h.closed i e new before name v) fun own => own
    · exact h.closed id e' new there name v held
  registry := h.registry
  limit := h.limit
  marks := h.marks

theorem set (h : S.Kin may must marked w) {i : ObjectId} {name : String} (own : may i name)
    (inside : i < S.start.objects.size) (v : Value) :
    S.Kin may (fun id n => must id n ∨ id = i ∧ n = name) marked
      (w.modified i (·.setRelation (.text name) v)) :=
  h.modified (fun _ _ _ kin => (kin.setRelation own v).weaken (fun _ => id)
      fun _ loaded => loaded.imp_right And.right)
    (fun _ other _ loaded => loaded.resolve_right fun same => other same.1)
    fun new => absurd inside (Nat.not_lt.mpr new)

theorem remarked (h : S.Kin may must marked w) {m : Marks} (limit : m.limit = (S.marks w).limit)
    (more : ∀ row, S.IsRow row → ∀ name : String, m.Marked row (.text name) →
      (S.marks w).Marked row (.text name) ∨ marked name) :
    S.Kin may must marked (w.remarked S.registry m) := by
  have now : S.marks (w.remarked S.registry m) = m := w.marks_remarked_self h.registry m
  refine ⟨h.lookup, h.size, h.collections, h.objects, h.closed,
    by simpa [World.remarked] using h.registry,
    by rw [now, limit, h.limit], fun sole row own name there => ?_⟩
  rw [now] at there
  exact (more row own name there).elim (h.marks sole row own name) .inr

theorem filed (h : S.Kin may must marked w) (registry : RegistryId) (f : Flights → Flights) :
    S.Kin may must marked (w.changeFlights registry f) := h.apart (apart_filed w registry f)

end Kin

end Scene

end Relata
