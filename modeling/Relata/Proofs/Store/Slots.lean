import Relata.Loading.Shared
import Relata.Proofs.Value.Entries

/-!
The relations that objects hold, and how they change. What is set is held, and another relation is
held as before; to begin loading and to take that back leaves what is held.
-/

namespace Relata

/-- What a loaded value holds: nothing, the items of a list, or a value by itself. -/
def Value.held : Value → List Value
  | .null => []
  | .list items => items
  | v => [v]

/-- A value that holds objects is followed to those objects. -/
theorem Env.heldBy_of_objects {env : Env} {v : Value} (h : ∀ x ∈ v.held, ∃ id, x = .object id) :
    env.heldBy v = v.held := by
  cases v with
  | collection id =>
    obtain ⟨_, absurd⟩ := h _ (.head _)
    cases absurd
  | _ => rfl

namespace Entity

theorem isKey_text (n : String) : (Value.text n).isKey = true := rfl

theorem slot?_setSlot_text (e : Entity) (n n' : String) (s : Slot) :
    (e.setSlot (.text n) s).slot? (.text n') = if n' = n then some s else e.slot? (.text n') := by
  simpa [slot?, setSlot, Value.same] using Value.lookup?_put (isKey_text n') (isKey_text n) e.slots s

theorem slot?_forgetRelation_text (e : Entity) (n n' : String) :
    (e.forgetRelation (.text n)).slot? (.text n') =
      if n' = n then none else e.slot? (.text n') := by
  simpa [slot?, forgetRelation, Value.same] using
    Value.lookup?_drop (isKey_text n') (isKey_text n) e.slots

@[simp] theorem value?_setRelation_text (e : Entity) (n n' : String) (v : Value) :
    (e.setRelation (.text n) v).value? (.text n') =
      if n' = n then some v else e.value? (.text n') := by
  unfold value? setRelation
  rw [slot?_setSlot_text]
  by_cases own : n' = n <;> simp [own]

@[simp] theorem value?_beginLoading (e : Entity) (n n' : String) :
    (e.beginLoading (.text n)).value? (.text n') = e.value? (.text n') := by
  unfold beginLoading
  split
  · rfl
  · next fresh =>
    simp only [isLoaded, Option.not_isSome_iff_eq_none] at fresh
    by_cases own : n' = n
    · rw [own, fresh, value?, slot?_setSlot_text, if_pos rfl]
    · rw [value?, slot?_setSlot_text, if_neg own, value?]

@[simp] theorem value?_abandonLoading (e : Entity) (n n' : String) :
    (e.abandonLoading (.text n)).value? (.text n') = e.value? (.text n') := by
  unfold abandonLoading
  split
  · rfl
  · next fresh =>
    simp only [isLoaded, Option.not_isSome_iff_eq_none] at fresh
    by_cases own : n' = n
    · rw [own, fresh, value?, slot?_forgetRelation_text, if_pos rfl]
    · rw [value?, slot?_forgetRelation_text, if_neg own, value?]

@[simp] theorem model_beginLoading (e : Entity) (slot : Value) :
    (e.beginLoading slot).model = e.model := by
  unfold beginLoading
  split <;> rfl

@[simp] theorem model_abandonLoading (e : Entity) (slot : Value) :
    (e.abandonLoading slot).model = e.model := by
  unfold abandonLoading
  split <;> rfl

end Entity

namespace World

variable {τ : Type}

/-- The world with an object changed. -/
def modified (w : World τ) (id : ObjectId) (f : Entity → Entity) : World τ :=
  { w with objects := w.objects.modify id f }

/-- The world with an object more. -/
def extended (w : World τ) (e : Entity) : World τ := { w with objects := w.objects.push e }

/-- The world with a collection more, which its members know. -/
def adopted (w : World τ) (members : List ObjectId) : World τ :=
  { w with
    collections := w.collections.push members
    objects := members.foldl (fun objects o =>
      objects.modify o fun e => { e with collection := some w.collections.size }) w.objects }

/-- The world with other marks in a registry, if there is such a registry. -/
def remarked (w : World τ) (registry : RegistryId) (marks : Marks) : World τ :=
  { w with registries :=
      w.registries.setIfInBounds registry { w.registryOf registry with marks := marks } }

@[simp] theorem object?_modified (w : World τ) (id i : ObjectId) (f : Entity → Entity) :
    (w.modified id f).object? i = if id = i then (w.object? i).map f else w.object? i := by
  simp [modified, Env.object?, Array.getElem?_modify]

/-- To change an object is to put the changed one in its place. -/
theorem modified_of_object? {w : World τ} {id : ObjectId} {e : Entity} (there : w.object? id = some e)
    (f : Entity → Entity) :
    w.modified id f = { w with objects := w.objects.setIfInBounds id (f e) } := by
  have same : w.objects.modify id f = w.objects.setIfInBounds id (f e) := by
    refine Array.ext_getElem? fun i => ?_
    rw [Array.getElem?_setIfInBounds, Array.getElem?_modify]
    split
    · next here =>
      subst here
      obtain ⟨inside, own⟩ := Array.getElem?_eq_some_iff.mp there
      simp [inside, own]
    · rfl
  rw [modified, same]

theorem object?_extended {w : World τ} {i : ObjectId} {e new : Entity} (h : w.object? i = some e) :
    (w.extended new).object? i = some e := by
  have inside : i < w.objects.size := (Array.getElem?_eq_some_iff.mp h).1
  simpa [extended, Env.object?, Array.getElem?_push, Nat.ne_of_lt inside] using h

theorem object?_adopted (w : World τ) (members : List ObjectId) (i : ObjectId) :
    (w.adopted members).object? i = (w.object? i).map fun e =>
      if i ∈ members then { e with collection := some w.collections.size } else e := by
  suffices ∀ objects : Array Entity, (members.foldl (fun objects o => objects.modify o fun e =>
      { e with collection := some w.collections.size }) objects)[i]? = (objects[i]?).map fun e =>
        if i ∈ members then { e with collection := some w.collections.size } else e from
    this w.objects
  induction members with
  | nil => simp
  | cons o rest ih =>
    intro objects
    rw [List.foldl_cons, ih, Array.getElem?_modify]
    by_cases own : o = i
    · cases objects[i]? <;> simp [own]
    · simp [own, Ne.symm own]

@[simp] theorem size_adopted (w : World τ) (members : List ObjectId) :
    (w.adopted members).objects.size = w.objects.size := by
  suffices ∀ objects : Array Entity, (members.foldl (fun objects o => objects.modify o fun e =>
      { e with collection := some w.collections.size }) objects).size = objects.size from
    this w.objects
  induction members with
  | nil => exact fun _ => rfl
  | cons o rest ih => exact fun objects => (ih _).trans (by simp)

theorem collections_adopted {w : World τ} {members : List ObjectId} {id : CollectionId}
    {c : List ObjectId} (h : w.collections[id]? = some c) :
    (w.adopted members).collections[id]? = some c := by
  have inside : id < w.collections.size := (Array.getElem?_eq_some_iff.mp h).1
  simpa [adopted, Array.getElem?_push, Nat.ne_of_lt inside] using h

mutual

/-- Marks say nothing of what counts as equal. -/
theorem canonical_remarked (w : World τ) (registry : RegistryId) (marks : Marks) (v : Value) :
    (w.remarked registry marks).canonical v = w.canonical v := by
  cases v with
  | list items | tuple items => simp only [Env.canonical, canonicalItems_remarked w registry marks items]
  | dict entries => simp only [Env.canonical, canonicalEntries_remarked w registry marks entries]
  | _ => rfl

theorem canonicalItems_remarked (w : World τ) (registry : RegistryId) (marks : Marks)
    (items : List Value) : (w.remarked registry marks).canonicalItems items = w.canonicalItems items := by
  cases items with
  | nil => rfl
  | cons v rest =>
    simp only [Env.canonicalItems, canonical_remarked w registry marks v,
      canonicalItems_remarked w registry marks rest]

theorem canonicalEntries_remarked (w : World τ) (registry : RegistryId) (marks : Marks)
    (entries : List (Value × Value)) :
    (w.remarked registry marks).canonicalEntries entries = w.canonicalEntries entries := by
  match entries with
  | [] => rfl
  | (k, v) :: rest =>
    simp only [Env.canonicalEntries, canonical_remarked w registry marks k,
      canonical_remarked w registry marks v, canonicalEntries_remarked w registry marks rest]

end

mutual

/-- Marks say nothing of what can be a key. -/
theorem isKey_remarked (w : World τ) (registry : RegistryId) (marks : Marks) (v : Value) :
    (w.remarked registry marks).isKey v = w.isKey v := by
  cases v with
  | tuple items => simp only [Env.isKey, areKeys_remarked w registry marks items]
  | _ => rfl

theorem areKeys_remarked (w : World τ) (registry : RegistryId) (marks : Marks)
    (items : List Value) : (w.remarked registry marks).areKeys items = w.areKeys items := by
  cases items with
  | nil => rfl
  | cons v rest =>
    simp only [Env.areKeys, isKey_remarked w registry marks v, areKeys_remarked w registry marks rest]

end

theorem key_remarked (w : World τ) (registry : RegistryId) (marks : Marks) (v : Value) :
    (w.remarked registry marks).key v = w.key v := by
  simp only [Env.key, isKey_remarked, canonical_remarked]

theorem marks_remarked_self (w : World τ) {registry : RegistryId}
    (there : registry < w.registries.size) (marks : Marks) :
    ((w.remarked registry marks).registryOf registry).marks = marks := by
  simp [remarked, Env.registryOf, there]

/-- The marks of a registry are those that were put in, or the ones before. -/
theorem marks_remarked (w : World τ) (registry other : RegistryId) (marks : Marks) :
    ((w.remarked registry marks).registryOf other).marks = (w.registryOf other).marks ∨
      other = registry ∧ ((w.remarked registry marks).registryOf other).marks = marks := by
  unfold remarked Env.registryOf
  dsimp only
  rw [Array.getElem?_setIfInBounds]
  split
  · next own =>
    subst own
    split
    · exact .inr ⟨rfl, rfl⟩
    · next outside => exact .inl (by rw [Array.getElem?_eq_none (Nat.le_of_not_lt outside)])
  · exact .inl rfl

end World

end Relata
