import Relata.Proofs.Process.Abides
import Relata.Proofs.Store.Slots

/-!
Slots as two tables. What is kept of the relations of an object may as well be two tables, one of the
values and one of the states, each changed by itself. Main statement: tables that go through the same
changes as the slots of a world show the same values and states, so a value stands in the one exactly
where the state in the other says so, whatever the changes are and in whichever order they come.
-/

namespace Relata

/-- The values of the relations of an object, and their states. -/
structure Tables where
  values : List (Value × Value)
  states : List (Value × RelationState)

namespace Tables

def empty : Tables := ⟨[], []⟩

def value? (t : Tables) (name : Value) : Option Value := Value.lookup? name t.values

def state (t : Tables) (name : Value) : RelationState :=
  (Value.lookup? name t.states).getD .notRequested

def setRelation (t : Tables) (name v : Value) : Tables :=
  ⟨Value.put t.values name v, Value.put t.states name .loaded⟩

def forgetRelation (t : Tables) (name : Value) : Tables :=
  ⟨Value.drop t.values name, Value.drop t.states name⟩

/-- A loaded value stays readable while it is being fetched again. -/
def beginLoading (t : Tables) (name : Value) : Tables :=
  if (t.value? name).isSome then t else { t with states := Value.put t.states name .loading }

/-- The state that the values tell. -/
def abandonLoading (t : Tables) (name : Value) : Tables :=
  if (t.value? name).isSome then { t with states := Value.put t.states name .loaded }
  else { t with states := Value.drop t.states name }

end Tables

/-- A value that is what it is, and does not stand for another one. -/
def Value.Plain : Value → Prop
  | .parameter _ | .variable _ _ | .thrown _ => False
  | _ => True

/-- A change to one relation of an object. -/
inductive SlotChange where
  | set (name : String) (v : Value)
  | forget (name : String)
  | begin_ (name : String)
  | abandon (name : String)

namespace SlotChange

def onEntity : SlotChange → Entity → Entity
  | set name v, e => e.setRelation (.text name) v
  | forget name, e => e.forgetRelation (.text name)
  | begin_ name, e => e.beginLoading (.text name)
  | abandon name, e => e.abandonLoading (.text name)

def onTables : SlotChange → Tables → Tables
  | set name v, t => t.setRelation (.text name) v
  | forget name, t => t.forgetRelation (.text name)
  | begin_ name, t => t.beginLoading (.text name)
  | abandon name, t => t.abandonLoading (.text name)

/-- Several changes to one object, one after the other. -/
def all (changes : List SlotChange) (e : Entity) : Entity := changes.foldl (fun e c => c.onEntity e) e

def allOnTables (changes : List SlotChange) (t : Tables) : Tables :=
  changes.foldl (fun t c => c.onTables t) t

/-- What the change sets holds plain values. -/
def Plain : SlotChange → Prop
  | set _ v => ∀ x ∈ v.held, x.Plain
  | _ => True

end SlotChange

namespace Entity

variable {e : Entity} {name other : String}

theorem state_eq_loaded_iff : e.state (.text name) = .loaded ↔ (e.value? (.text name)).isSome := by
  unfold state value?
  cases e.slot? (.text name) with
  | none => simp
  | some s => cases s <;> simp

theorem value?_forgetRelation_text : (e.forgetRelation (.text name)).value? (.text other) =
    if other = name then none else e.value? (.text other) := by
  unfold value?
  rw [slot?_forgetRelation_text]
  by_cases own : other = name <;> simp [own]

theorem state_setRelation_text (v : Value) : (e.setRelation (.text name) v).state (.text other) =
    if other = name then .loaded else e.state (.text other) := by
  unfold state setRelation
  rw [slot?_setSlot_text]
  by_cases own : other = name <;> simp [own]

theorem state_forgetRelation_text : (e.forgetRelation (.text name)).state (.text other) =
    if other = name then .notRequested else e.state (.text other) := by
  unfold state
  rw [slot?_forgetRelation_text]
  by_cases own : other = name <;> simp [own]

theorem state_beginLoading_text : (e.beginLoading (.text name)).state (.text other) =
    if other = name ∧ (e.value? (.text name)).isSome = false then .loading
    else e.state (.text other) := by
  unfold beginLoading isLoaded
  cases (e.value? (.text name)).isSome with
  | true => simp
  | false =>
    simp only [Bool.false_eq_true, if_false, and_true]
    unfold state
    rw [slot?_setSlot_text]
    by_cases own : other = name <;> simp [own]

theorem state_abandonLoading_text : (e.abandonLoading (.text name)).state (.text other) =
    if other = name ∧ (e.value? (.text name)).isSome = false then .notRequested
    else e.state (.text other) := by
  unfold abandonLoading isLoaded
  cases (e.value? (.text name)).isSome with
  | true => simp
  | false => simpa using state_forgetRelation_text

/-- What an object shows is said by its slots. -/
theorem value?_of_slots {e e' : Entity} (same : e'.slots = e.slots) (name : Value) :
    e'.value? name = e.value? name := by rw [value?, value?, slot?, slot?, same]

end Entity

namespace Entity

/-- Relations of an object hold plain values. -/
def Plain (e : Entity) : Prop :=
  ∀ (name : String) (v : Value), e.value? (.text name) = some v → ∀ x ∈ v.held, x.Plain

theorem Plain.change {e : Entity} (h : e.Plain) {c : SlotChange} (plain : c.Plain) :
    (c.onEntity e).Plain := by
  intro name v own
  cases c with
  | set other u =>
    rw [SlotChange.onEntity, value?_setRelation_text] at own
    split at own
    · exact Option.some.inj own ▸ plain
    · exact h name v own
  | forget other =>
    rw [SlotChange.onEntity, value?_forgetRelation_text] at own
    split at own
    · cases own
    · exact h name v own
  | begin_ other =>
    rw [SlotChange.onEntity, value?_beginLoading] at own
    exact h name v own
  | abandon other =>
    rw [SlotChange.onEntity, value?_abandonLoading] at own
    exact h name v own

theorem Plain.all {e : Entity} (h : e.Plain) {changes : List SlotChange}
    (plain : ∀ c ∈ changes, c.Plain) : (SlotChange.all changes e).Plain := by
  induction changes generalizing e with
  | nil => exact h
  | cons c rest ih =>
    exact ih (h.change (plain c (.head _))) fun c there => plain c (.tail _ there)

end Entity

namespace Tables

/-- The tables show what the slots of an object hold. -/
structure Shows (t : Tables) (e : Entity) : Prop where
  value : ∀ name : String, t.value? (.text name) = e.value? (.text name)
  state : ∀ name : String, t.state (.text name) = e.state (.text name)

variable {t : Tables} {e : Entity}

theorem lookup?_put_text {α : Type} (entries : List (Value × α)) (name other : String) (a : α) :
    Value.lookup? (.text other) (Value.put entries (.text name) a) =
      if other = name then some a else Value.lookup? (.text other) entries := by
  simpa [Value.same] using
    Value.lookup?_put (Entity.isKey_text other) (Entity.isKey_text name) entries a

theorem lookup?_drop_text {α : Type} (entries : List (Value × α)) (name other : String) :
    Value.lookup? (.text other) (Value.drop entries (.text name)) =
      if other = name then none else Value.lookup? (.text other) entries := by
  simpa [Value.same] using
    Value.lookup?_drop (Entity.isKey_text other) (Entity.isKey_text name) entries

theorem shows_empty (bare : e.slots = []) : empty.Shows e :=
  ⟨fun name => by simp [value?, empty, Entity.value?, Entity.slot?, bare, Value.lookup?],
    fun name => by simp [Tables.state, empty, Entity.state, Entity.slot?, bare, Value.lookup?]⟩

theorem Shows.of_slots (h : t.Shows e) {e' : Entity} (same : e'.slots = e.slots) : t.Shows e' := by
  refine ⟨fun name => ?_, fun name => ?_⟩
  · rw [h.value, Entity.value?, Entity.value?, Entity.slot?, Entity.slot?, same]
  · rw [h.state, Entity.state, Entity.state, Entity.slot?, Entity.slot?, same]

/-- Each change does to the tables what it does to the slots. -/
theorem Shows.change (h : t.Shows e) (c : SlotChange) : (c.onTables t).Shows (c.onEntity e) := by
  cases c with
  | set name v =>
    refine ⟨fun other => ?_, fun other => ?_⟩
    · rw [SlotChange.onEntity, Entity.value?_setRelation_text, ← h.value]
      exact lookup?_put_text _ _ _ _
    · rw [SlotChange.onEntity, Entity.state_setRelation_text, ← h.state]
      simp only [SlotChange.onTables, setRelation, Tables.state, lookup?_put_text]
      split <;> rfl
  | forget name =>
    refine ⟨fun other => ?_, fun other => ?_⟩
    · rw [SlotChange.onEntity, Entity.value?_forgetRelation_text, ← h.value]
      exact lookup?_drop_text _ _ _
    · rw [SlotChange.onEntity, Entity.state_forgetRelation_text, ← h.state]
      simp only [SlotChange.onTables, forgetRelation, Tables.state, lookup?_drop_text]
      split <;> rfl
  | begin_ name =>
    refine ⟨fun other => ?_, fun other => ?_⟩
    · rw [SlotChange.onEntity, Entity.value?_beginLoading, ← h.value]
      simp only [SlotChange.onTables, beginLoading]
      split <;> rfl
    · rw [SlotChange.onEntity, Entity.state_beginLoading_text, ← h.state, ← h.value]
      simp only [SlotChange.onTables, beginLoading]
      cases (t.value? (.text name)).isSome with
      | true => simp
      | false =>
        simp only [Bool.false_eq_true, if_false, and_true, Tables.state, lookup?_put_text]
        split <;> rfl
  | abandon name =>
    refine ⟨fun other => ?_, fun other => ?_⟩
    · rw [SlotChange.onEntity, Entity.value?_abandonLoading, ← h.value]
      simp only [SlotChange.onTables, abandonLoading]
      split <;> rfl
    · rw [SlotChange.onEntity, Entity.state_abandonLoading_text, ← h.state, ← h.value]
      simp only [SlotChange.onTables, abandonLoading]
      cases there : (t.value? (.text name)).isSome with
      | true =>
        simp only [if_true, Bool.true_eq_false, and_false, if_false]
        have loaded : t.state (.text name) = .loaded := by
          rw [h.state, Entity.state_eq_loaded_iff, ← h.value, there]
        simp only [Tables.state, lookup?_put_text]
        split
        · next own => exact own ▸ loaded.symm
        · rfl
      | false =>
        simp only [Bool.false_eq_true, if_false, and_true, Tables.state, lookup?_drop_text]
        split <;> rfl

theorem Shows.all (h : t.Shows e) (changes : List SlotChange) :
    (SlotChange.allOnTables changes t).Shows (SlotChange.all changes e) := by
  induction changes generalizing t e with
  | nil => exact h
  | cons c rest ih => exact ih (h.change c)

end Tables

namespace World

variable {τ : Type} {w w' w'' start now : World τ}

/-- The slots of an object, none if there is no such object. -/
def slotsOf (w : World τ) (id : ObjectId) : List (Value × Slot) :=
  ((w.object? id).map (·.slots)).getD []

/-- The relations of all objects are as they were; there may be new objects, which have none. -/
structure Untouched (w w' : World τ) : Prop where
  slots : ∀ id, w'.slotsOf id = w.slotsOf id
  grown : w.objects.size ≤ w'.objects.size

/-- The relations of one object have changed, or those of none. -/
inductive Touched (w : World τ) : World τ → Prop
  | none {w' : World τ} : w.Untouched w' → Touched w w'
  | one {id : ObjectId} (changes : List SlotChange) : (∀ c ∈ changes, c.Plain) →
    Touched w (w.modified id (SlotChange.all changes))

/-- Relations of all objects hold plain values. -/
def Plain (w : World τ) : Prop := ∀ (id : ObjectId) (e : Entity), w.object? id = some e → e.Plain

theorem slots_of_object? {id : ObjectId} {e : Entity} (there : w.object? id = some e) :
    w.slotsOf id = e.slots := by rw [slotsOf, there]; rfl

/-- Objects stay, with their relations as they were. -/
theorem Untouched.object? (h : w.Untouched w') {id : ObjectId} {e : Entity}
    (there : w.object? id = some e) : ∃ e', w'.object? id = some e' ∧ e'.slots = e.slots := by
  have inside : id < w'.objects.size := (Array.getElem?_eq_some_iff.mp there).1.trans_le h.grown
  obtain ⟨e', later⟩ : ∃ e', w'.object? id = some e' := ⟨_, Array.getElem?_eq_getElem inside⟩
  refine ⟨e', later, ?_⟩
  rw [← slots_of_object? later, h.slots, slots_of_object? there]

/-- Nothing has happened to the objects. -/
theorem Untouched.of_objects (h : w'.objects = w.objects) : w.Untouched w' :=
  ⟨fun id => by rw [slotsOf, slotsOf, Env.object?, Env.object?, h], h ▸ Nat.le_refl _⟩

theorem slotsOf_modified (w : World τ) (id other : ObjectId) (f : Entity → Entity) :
    (w.modified id f).slotsOf other = if id = other then
      ((w.object? other).map fun e => (f e).slots).getD [] else w.slotsOf other := by
  unfold slotsOf
  rw [object?_modified]
  split <;> simp [Function.comp_def]

theorem untouched_extended (w : World τ) {e : Entity} (bare : e.slots = []) :
    w.Untouched (w.extended e) := by
  refine ⟨fun id => ?_, by simp [extended]⟩
  simp only [slotsOf, extended, Env.object?, Array.getElem?_push]
  split
  · next last =>
    rw [last, Array.getElem?_eq_none (Nat.le_refl _)]
    exact bare
  · rfl

theorem untouched_adopted (w : World τ) (members : List ObjectId) :
    w.Untouched (w.adopted members) := by
  refine ⟨fun id => ?_, (size_adopted w members).ge⟩
  unfold slotsOf
  rw [object?_adopted, Option.map_map]
  congr 2
  funext e
  simp only [Function.comp]
  split <;> rfl

theorem Plain.untouched (h : w.Plain) (same : w.Untouched w') : w'.Plain := by
  intro id e there name v own
  have slots := same.slots id
  rw [slots_of_object? there] at slots
  cases before : w.object? id with
  | none =>
    rw [slotsOf, before] at slots
    simp [Entity.value?, Entity.slot?, slots, Value.lookup?] at own
  | some e₀ =>
    rw [slots_of_object? before] at slots
    exact h id e₀ before name v (Entity.value?_of_slots slots _ ▸ own)

theorem Touched.size_le (h : w.Touched w') : w.objects.size ≤ w'.objects.size := by
  cases h with
  | none same => exact same.grown
  | one changes _ => simp [modified]

/-- Relations go on to hold plain values. -/
theorem Plain.touched (h : w.Plain) (touched : w.Touched w') : w'.Plain := by
  cases touched with
  | none same => exact h.untouched same
  | @one id changes plain =>
    intro other e there
    rw [object?_modified] at there
    split at there
    · obtain ⟨e₀, before, rfl⟩ := Option.map_eq_some_iff.mp there
      exact (h other e₀ before).all plain
    · exact h other e there

/-- Tables, one pair for each object, that have gone through the changes between the worlds that there
have been. The last world stands first. -/
inductive Traced : List (World τ) → (ObjectId → Tables) → Prop
  | start {w : World τ} : (∀ id, w.slotsOf id = []) → Traced [w] fun _ => .empty
  | aside {w w' : World τ} {past : List (World τ)} {tables : ObjectId → Tables} :
    Traced (w :: past) tables → w.Untouched w' → Traced (w' :: w :: past) tables
  | change {w : World τ} {past : List (World τ)} {tables : ObjectId → Tables} {id : ObjectId} {e : Entity}
    (changes : List SlotChange) : Traced (w :: past) tables → w.object? id = some e →
      Traced (w.modified id (SlotChange.all changes) :: w :: past)
        (Function.update tables id (SlotChange.allOnTables changes (tables id)))

/-- Tables that have gone through the changes of the worlds show the slots of the last one. -/
theorem Traced.shows {past : List (World τ)} {tables : ObjectId → Tables}
    (h : Traced (w :: past) tables) (id : ObjectId) (e : Entity) (own : e.slots = w.slotsOf id) :
    (tables id).Shows e := by
  generalize worlds : w :: past = whole at h
  induction h generalizing w past id e with
  | start bare =>
    obtain ⟨rfl, -⟩ := List.cons.inj worlds
    exact Tables.shows_empty (own.trans (bare id))
  | aside _ same ih =>
    obtain ⟨rfl, -⟩ := List.cons.inj worlds
    exact ih id e (own.trans (same.slots id)) rfl
  | @change w₀ _ tables changed e₀ changes _ there ih =>
    obtain ⟨rfl, -⟩ := List.cons.inj worlds
    rw [slotsOf_modified] at own
    split at own
    · next same =>
      subst same
      rw [there] at own
      rw [Function.update_self]
      exact ((ih changed e₀ (slots_of_object? there).symm rfl).all changes).of_slots own
    · next other =>
      rw [Function.update_of_ne (Ne.symm other)]
      exact ih id e own rfl

/-- A course of changes to the relations of one object at a time can be traced in tables. -/
theorem traced_of_course {past : List (World τ)} (course : Schedule.Course Touched start past now)
    (bare : ∀ id, start.slotsOf id = []) :
    ∃ earlier tables, past = now :: earlier ∧ Traced past tables := by
  induction course with
  | start => exact ⟨[], _, rfl, .start bare⟩
  | @change _ now _ _ touched ih =>
    obtain ⟨earlier, tables, rfl, traced⟩ := ih
    cases touched with
    | none same => exact ⟨_, tables, rfl, traced.aside same⟩
    | @one id changes _ =>
      cases there : now.object? id with
      | none =>
        refine ⟨_, tables, rfl, traced.aside ⟨fun other => ?_, by simp [modified]⟩⟩
        rw [slotsOf_modified]
        split
        · next own => rw [← own, slotsOf, there]; rfl
        · rfl
      | some e => exact ⟨_, _, rfl, traced.change changes there⟩

end World

end Relata
