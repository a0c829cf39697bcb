import Relata.Loading.Shared

/-!
How the world changes while relations are loaded. Objects and collections are added and none is
taken away; an object that was there may come to hold relations, or to know another collection, and
its class and its columns stay.
-/

namespace Relata

/-- A later world: models, aliases, connections and queries are the same, what was there is still
there, and each object has the class and the columns it had. -/
structure World.Grows {τ : Type} (w w' : World τ) : Prop where
  lookup : w'.toLookup = w.toLookup
  connections : w'.connections = w.connections
  rest : w'.rest = w.rest
  queries : w'.queries = w.queries
  collection : ∀ {id : CollectionId} {c : List ObjectId}, w.collections[id]? = some c →
    w'.collections[id]? = some c
  object : ∀ {id : ObjectId} {e : Entity}, w.object? id = some e → ∃ e', w'.object? id = some e' ∧
    e'.model = e.model ∧ e'.fields = e.fields ∧ e'.extra = e.extra

/-- What is put under a key stands there. -/
theorem Value.lookup?_put_self {α : Type} {key : Value} (self : key.same key = true)
    (entries : List (Value × α)) (a : α) : lookup? key (put entries key a) = some a := by
  have replaced : ∀ entries : List (Value × α), entries.any (fun e => same key e.1) = true →
      lookup? key (entries.map fun e => if same key e.1 then (e.1, a) else e) = some a := by
    intro entries there
    induction entries with
    | nil => cases there
    | cons e entries ih =>
      by_cases here : same key e.1 = true
      · simp [lookup?, here]
      · simp only [List.any_cons, here, Bool.false_or] at there
        simpa [lookup?, here] using ih there
  have added : ∀ entries : List (Value × α), ¬ entries.any (fun e => same key e.1) = true →
      lookup? key (entries ++ [(key, a)]) = some a := by
    intro entries fresh
    induction entries with
    | nil => simp [lookup?, self]
    | cons e entries ih =>
      simp only [List.any_cons, Bool.or_eq_true, not_or] at fresh
      simpa [lookup?, fresh.1] using ih fresh.2
  unfold put
  split
  · next there => exact replaced entries there
  · next fresh => exact added entries fresh

/-- A change of an object that leaves its class and its columns. -/
def Entity.KeepsColumns (f : Entity → Entity) : Prop :=
  ∀ e, (f e).model = e.model ∧ (f e).fields = e.fields ∧ (f e).extra = e.extra

namespace Entity

theorem value?_setRelation {name : Value} (self : name.same name = true) (e : Entity) (v : Value) :
    (e.setRelation name v).value? name = some v := by
  simp [value?, slot?, setRelation, setSlot, Value.lookup?_put_self self]

theorem keepsColumns_setRelation (name v : Value) : KeepsColumns (·.setRelation name v) :=
  fun _ => ⟨rfl, rfl, rfl⟩

theorem keepsColumns_beginLoading (name : Value) : KeepsColumns (·.beginLoading name) := by
  intro e
  simp only [beginLoading]
  split <;> exact ⟨rfl, rfl, rfl⟩

theorem keepsColumns_abandonLoading (name : Value) : KeepsColumns (·.abandonLoading name) := by
  intro e
  simp only [abandonLoading]
  split <;> exact ⟨rfl, rfl, rfl⟩

end Entity

namespace World.Grows

variable {τ : Type}

theorem refl (w : World τ) : w.Grows w :=
  ⟨rfl, rfl, rfl, rfl, fun there => there, fun there => ⟨_, there, rfl, rfl, rfl⟩⟩

theorem trans {w w' w'' : World τ} (h : w.Grows w') (h' : w'.Grows w'') : w.Grows w'' where
  lookup := h'.lookup.trans h.lookup
  connections := h'.connections.trans h.connections
  rest := h'.rest.trans h.rest
  queries := h'.queries.trans h.queries
  collection there := h'.collection (h.collection there)
  object there := by
    obtain ⟨e', there', hm, hf, he⟩ := h.object there
    obtain ⟨e'', there'', hm', hf', he'⟩ := h'.object there'
    exact ⟨e'', there'', hm'.trans hm, hf'.trans hf, he'.trans he⟩

/-- Nothing that growing keeps is in the registries or among the warnings. -/
theorem of_registries (w : World τ) (registries : Array Registry) :
    w.Grows { w with registries := registries } :=
  ⟨rfl, rfl, rfl, rfl, fun there => there, fun there => ⟨_, there, rfl, rfl, rfl⟩⟩

theorem of_warnings (w : World τ) (warnings : List String) :
    w.Grows { w with warnings := warnings } :=
  ⟨rfl, rfl, rfl, rfl, fun there => there, fun there => ⟨_, there, rfl, rfl, rfl⟩⟩

/-- An object may be changed where growing leaves it free. -/
theorem of_modify (w : World τ) (id : ObjectId) {f : Entity → Entity}
    (keeps : Entity.KeepsColumns f) :
    w.Grows { w with objects := w.objects.modify id f } := by
  refine ⟨rfl, rfl, rfl, rfl, fun there => there, fun {i e} there => ?_⟩
  by_cases h : id = i
  · refine ⟨f e, ?_, keeps e⟩
    simpa [Env.object?, Array.getElem?_modify, h] using ⟨e, there, rfl⟩
  · exact ⟨e, by simpa [Env.object?, Array.getElem?_modify, h] using there, rfl, rfl, rfl⟩

theorem of_push (w : World τ) (e : Entity) : w.Grows { w with objects := w.objects.push e } := by
  refine ⟨rfl, rfl, rfl, rfl, fun there => there, fun {i old} there => ⟨old, ?_, rfl, rfl, rfl⟩⟩
  have inside : i < w.objects.size := (Array.getElem?_eq_some_iff.mp there).1
  simpa [Env.object?, Array.getElem?_push, Nat.ne_of_lt inside] using there

theorem of_modify_each (w : World τ) (ids : List ObjectId) {f : Entity → Entity}
    (keeps : Entity.KeepsColumns f) :
    w.Grows { w with objects := ids.foldl (fun objects id => objects.modify id f) w.objects } := by
  induction ids generalizing w with
  | nil => exact refl w
  | cons id rest ih => exact (of_modify w id keeps).trans (ih _)

theorem of_collection (w : World τ) (members : List ObjectId) :
    w.Grows { w with collections := w.collections.push members } := by
  refine ⟨rfl, rfl, rfl, rfl, fun {i c} there => ?_, fun there => ⟨_, there, rfl, rfl, rfl⟩⟩
  have inside : i < w.collections.size := (Array.getElem?_eq_some_iff.mp there).1
  simpa [Array.getElem?_push, Nat.ne_of_lt inside] using there

end World.Grows

/-- Attributes that objects have beside their columns and relations. -/
def Entity.bookkeeping : List String :=
  ["loaded_relations", "_collection", "_relations", "_relation_states"]

/-- An attribute that the objects of a model read off their columns: it is no declared relation and
none of the bookkeeping. -/
structure Model.Plain (m : Model) (name : String) : Prop where
  free : name ∉ Entity.bookkeeping
  undeclared : m.declared.any (·.1 == name) = false

/-- What an object has under such a name, null if nothing. -/
def Entity.column (e : Entity) (name : String) : Value :=
  ((e.fields.lookup name).or
    (if Env.methodNames.contains name then some Env.method else e.extra.lookup name)).getD .null

namespace World

variable {τ : Type} {w w' : World τ}

/-- An object is there that was made as `e`: with its class and its columns. -/
def Holds (w : World τ) (o : ObjectId) (e : Entity) : Prop :=
  ∃ e', w.object? o = some e' ∧ e'.model = e.model ∧ e'.fields = e.fields ∧ e'.extra = e.extra

theorem holds_of_object? {o : ObjectId} {e : Entity} (h : w.object? o = some e) : w.Holds o e :=
  ⟨e, h, rfl, rfl, rfl⟩

theorem Holds.later {o : ObjectId} {e : Entity} (h : w.Holds o e) (grows : w.Grows w') :
    w'.Holds o e := by
  obtain ⟨e', there, hm, hf, he⟩ := h
  obtain ⟨e'', there', hm', hf', he'⟩ := grows.object there
  exact ⟨e'', there', hm'.trans hm, hf'.trans hf, he'.trans he⟩

/-- A plain attribute is read off the columns, whatever has become of the rest of the object. -/
theorem Holds.propertyOrNull {o : ObjectId} {e : Entity} {m : Model} {name : String}
    (h : w.Holds o e) (known : w.catalog.model? e.model = some m) (plain : m.Plain name) :
    w.propertyOrNull (.object o) name = .ok (e.column name) := by
  obtain ⟨e', there, hm, hf, he⟩ := h
  have free := plain.free
  simp only [Entity.bookkeeping, List.mem_cons, List.not_mem_nil, or_false, not_or] at free
  obtain ⟨noRelations, noCollection, noSlots, noStates⟩ := free
  have undeclared : (w.modelOf? e').any (fun m => m.declared.any (·.1 == name)) = false := by
    simp [Env.modelOf?, hm, known, plain.undeclared]
  simp only [Env.propertyOrNull, Env.property?, there, Env.propertyOf?, noRelations, noCollection,
    noSlots, noStates, undeclared, hf, he, if_false, Bool.false_eq_true, Entity.column]
  cases found : e.fields.lookup name with
  | some v => rfl
  | none =>
    by_cases method : Env.methodNames.contains name = true <;> simp only [method] <;> rfl

/-- The identifier of an object is one of its fields. -/
theorem Holds.requireId {o : ObjectId} {e : Entity} {v : Value} (h : w.Holds o e)
    (identified : e.fields.lookup "id" = some v) : w.requireProperty (.object o) "id" = .ok v := by
  obtain ⟨e', there, -, fields, -⟩ := h
  simp [Env.requireProperty, Env.property?, there, Env.propertyOf?, fields, identified, bind, Except.bind,
    pure, Except.pure]

/-- A value that can be a key, and stays one. -/
def Key (w : World τ) (v : Value) : Prop := ∀ w' : World τ, w.Grows w' → w'.isKey v = true

theorem Key.later {v : Value} (h : w.Key v) (grows : w.Grows w') : w'.Key v :=
  fun w'' more => h w'' (grows.trans more)

/-- What has a runner is a text, so it has the same one wherever the connections are the same. -/
theorem runner_of_connections (same : w'.connections = w.connections) {connection : Value} {n : Nat}
    (h : w.runner connection = .ok n) : w'.runner connection = .ok n := by
  unfold runner at *
  split at h
  · cases h
  · split at h
    · next name n found =>
      have named := List.find?_some found
      obtain rfl : connection = .text name := by
        cases connection <;> simp_all [Value.same, Value.toInt?]
      rw [same, found]
      exact h
    · cases h

theorem runner_later (grows : w.Grows w') {connection : Value} {n : Nat}
    (h : w.runner connection = .ok n) : w'.runner connection = .ok n :=
  runner_of_connections grows.connections h

end World

end Relata
