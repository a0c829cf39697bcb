import Relata.Proofs.Loading.Retained
import Relata.Proofs.Process.Abides
import Relata.Proofs.Registry.Account

/-!
Marks that have grounds. Whoever marks a row with a relation vouches for it: an object of that row
carries the relation, or is a further member of a collection whose first member carries it. If nothing
else marks rows, each mark has its grounds in a world that there has been: by induction on the course
of the worlds.
-/

namespace Relata

namespace World

variable {τ : Type} {w w' w'' : World τ}

/-- A later world in which collections are still there, and objects with whatever relations they
carried. -/
structure Widens (w w' : World τ) : Prop where
  collections : ∀ {id : CollectionId} {c : List ObjectId}, w.collections[id]? = some c →
    w'.collections[id]? = some c
  objects : ∀ {id e}, w.object? id = some e → ∃ e', w'.object? id = some e' ∧
    ∀ name : String, e.isLoaded (.text name) = true → e'.isLoaded (.text name) = true

theorem Retains.widens (h : Retains w w') : Widens w w' := by
  refine ⟨h.collections, fun there => ?_⟩
  obtain ⟨e', later, -, values⟩ := h.objects there
  refine ⟨e', later, fun name loaded => ?_⟩
  obtain ⟨v, own⟩ := Option.isSome_iff_exists.mp loaded
  exact Option.isSome_iff_exists.mpr ⟨v, values name v own⟩

namespace Widens

theorem refl (w : World τ) : Widens w w := ⟨id, fun there => ⟨_, there, fun _ => id⟩⟩

theorem trans (h : Widens w w') (h' : Widens w' w'') : Widens w w'' := by
  refine ⟨fun there => h'.collections (h.collections there), fun there => ?_⟩
  obtain ⟨e', there', loaded⟩ := h.objects there
  obtain ⟨e'', there'', loaded'⟩ := h'.objects there'
  exact ⟨e'', there'', fun name own => loaded' name (loaded name own)⟩

theorem size_le (h : Widens w w') : w.objects.size ≤ w'.objects.size :=
  size_le_of_objects fun there => (h.objects there).imp fun _ own => own.1

theorem isLoadedOn (h : Widens w w') {v : Value} {name : String}
    (loaded : w.isLoadedOn (.text name) v = true) : w'.isLoadedOn (.text name) v = true := by
  cases v with
  | object id =>
    simp only [Env.isLoadedOn, Option.any_eq_true] at loaded ⊢
    obtain ⟨e, there, own⟩ := loaded
    obtain ⟨e', later, still⟩ := h.objects there
    exact ⟨e', later, still name own⟩
  | _ => cases loaded

/-- An object may be changed if it keeps what it carries. -/
theorem modified (w : World τ) (id : ObjectId) {f : Entity → Entity}
    (keeps : ∀ e (name : String), e.isLoaded (.text name) = true → (f e).isLoaded (.text name) = true) :
    Widens w (w.modified id f) := by
  refine ⟨fun there => there, fun {i e} there => ?_⟩
  rw [object?_modified, there]
  by_cases same : id = i
  · exact ⟨f e, if_pos same, keeps e⟩
  · exact ⟨e, if_neg same, fun _ loaded => loaded⟩

end Widens

/-- A relation is loaded on a value. If marks may be judged by the first member of a collection, it is
enough that the first member carries the relation. -/
inductive Vouched (judged : Prop) (w : World τ) (name : String) : Value → Prop
  | own {v : Value} : w.isLoadedOn (.text name) v = true → Vouched judged w name v
  | first {c : CollectionId} {first id : ObjectId} {rest : List ObjectId} : judged →
    w.collections[c]? = some (first :: rest) → w.isLoadedOn (.text name) (.object first) = true →
      id ∈ rest → Vouched judged w name (.object id)

theorem Vouched.later {judged : Prop} {name : String} {v : Value} (h : w.Vouched judged name v)
    (widens : w.Widens w') : w'.Vouched judged name v := by
  cases h with
  | own loaded => exact .own (widens.isLoadedOn loaded)
  | first may there loaded member =>
    exact .first may (widens.collections there) (widens.isLoadedOn loaded) member

end World

mutual

/-- What can be a key is one as it counts. -/
theorem Env.isKey_canonical {env : Env} {v : Value} (h : env.isKey v = true) :
    (env.canonical v).isKey = true := by
  cases v with
  | tuple items =>
    simp only [Env.isKey] at h
    simpa only [Env.canonical, Value.isKey] using Env.areKeys_canonical h
  | object id => rfl
  | list items => cases h
  | dict entries => cases h
  | _ => exact h

theorem Env.areKeys_canonical {env : Env} {items : List Value} (h : env.areKeys items = true) :
    Value.areKeys (env.canonicalItems items) = true := by
  cases items with
  | nil => rfl
  | cons v rest =>
    simp only [Env.areKeys, Bool.and_eq_true] at h
    simp only [Env.canonicalItems, Value.areKeys, Bool.and_eq_true]
    exact ⟨Env.isKey_canonical h.1, Env.areKeys_canonical h.2⟩

end

namespace Marks

variable {τ : Type} {w w' start now : World τ} {past : List (World τ)} {registry : RegistryId}
  {judged : Prop} {key row : RowKey} {o : Value}

/-- The row of an object can be a key. -/
theorem IsRow.isKey (h : IsRow w o key) : key.value.isKey = true := by
  obtain ⟨model, id, -, hashes⟩ := h
  have first : key.model.isKey = true := by
    rw [← model]
    cases w.modelOfValue? o <;> rfl
  have second : key.id.isKey = true := by
    unfold Env.key at hashes
    split at hashes
    · next own => exact Except.ok.inj hashes ▸ Env.isKey_canonical own
    · cases hashes
  simp [RowKey.value, Value.isKey, Value.areKeys, first, second]

/-- What may be done in one step: objects stay what they are and keep what they carry; no row is marked,
or one is, with relations that its object is vouched for. -/
structure Honest (judged : Prop) (registry : RegistryId) (w w' : World τ) : Prop where
  widens : w.Widens w'
  marks : (∀ own ∈ (w'.registryOf registry).marks.rows, own ∈ (w.registryOf registry).marks.rows) ∨
    ∃ o key, ∃ names : List String, IsRow w o key ∧ (∀ name ∈ names, w.Vouched judged name o) ∧
      (w'.registryOf registry).marks =
        ((w.registryOf registry).marks.mark key ((names.map Value.text).map .ok)).1

namespace Honest

/-- Whatever is done to objects, without marks. -/
theorem of_same (widens : w.Widens w')
    (same : (w'.registryOf registry).marks = (w.registryOf registry).marks) :
    Honest judged registry w w' := ⟨widens, .inl fun own there => by rwa [same] at there⟩

/-- Marking the row of an object that is vouched for, in any registry. -/
theorem marked (isRow : IsRow w o key) {names : List String}
    (vouched : ∀ name ∈ names, w.Vouched judged name o) (other : RegistryId) :
    Honest judged registry w (w.remarked other
      ((w.registryOf other).marks.mark key ((names.map Value.text).map .ok)).1) := by
  rcases w.marks_remarked other registry
    ((w.registryOf other).marks.mark key ((names.map Value.text).map .ok)).1 with same | ⟨rfl, now⟩
  · exact of_same ((World.Retains.registries w _).widens) same
  · exact ⟨(World.Retains.registries w _).widens, .inr ⟨o, key, names, isRow, vouched, now⟩⟩

theorem widens_of_later (h : Relation.ReflTransGen (Honest judged registry) w w') : w.Widens w' := by
  induction h with
  | refl => exact .refl w
  | tail _ step ih => exact ih.trans step.widens

end Honest

/-- A row is marked with a relation on good grounds: in one of these worlds an object of that row was
vouched for. -/
def Grounds (judged : Prop) (past : List (World τ)) (row : RowKey) (name : String) : Prop :=
  ∃ w ∈ past, ∃ o key, IsRow w o key ∧ key.same row = true ∧ w.Vouched judged name o

/-- Only rows that can be keys are marked. -/
theorem keyed_of_course (course : Schedule.Course (Honest judged registry) start past now)
    (empty : (start.registryOf registry).marks.rows = []) :
    ∀ own ∈ (now.registryOf registry).marks.rows, own.key.value.isKey = true := by
  induction course with
  | start => simp [empty]
  | change _ step ih =>
    intro own there
    obtain kept | ⟨o, key, names, isRow, -, marks⟩ := step.marks
    · exact ih own (kept own there)
    · rw [marks] at there
      rcases mem_rows_mark there with old | ⟨same, -⟩ | ⟨stands, old, -, same, -⟩
      · exact ih own old
      · exact same ▸ isRow.isKey
      · exact same ▸ ih stands old

/-- Each mark has grounds: by induction on the course of the worlds, with the mark that a step may
make. -/
theorem grounds_of_course (course : Schedule.Course (Honest judged registry) start past now)
    (empty : (start.registryOf registry).marks.rows = []) {name : String}
    (marked : (now.registryOf registry).marks.Marked row (.text name)) :
    Grounds judged past row name := by
  induction course with
  | start =>
    obtain ⟨own, there, -⟩ := marked
    rw [empty] at there
    cases there
  | @change past w next course step ih =>
    have before (old : (w.registryOf registry).marks.Marked row (.text name)) :
        Grounds judged (next :: past) row name := (ih old).imp fun _ own => ⟨.tail _ own.1, own.2⟩
    obtain kept | ⟨o, key, names, isRow, vouched, marks⟩ := step.marks
    · exact before (marked.imp fun own there => ⟨kept own there.1, there.2⟩)
    · rw [marks] at marked
      rcases marked_or_named marked with old | ⟨named, equal⟩
      · exact before old
      · refine ⟨w, .tail _ course.mem, o, key, isRow, ?_, ?_⟩
        · rcases equal with same | ⟨own, there, stands, same⟩
          · exact same
          · -- What stands for the row is equal to it, and so the row is equal to whatever that is.
            have back : key.value.same own.key.value = true :=
              Value.same_symm (keyed_of_course course empty own there)
                ((RowKey.same_value _ _).trans stands)
            rw [← RowKey.same_value] at same ⊢
            exact Value.same_trans isRow.isKey back same
        · obtain ⟨v, hv, equal⟩ := List.any_eq_true.mp named
          obtain ⟨n, hn, rfl⟩ := List.mem_map.mp hv
          obtain rfl : name = n := by simpa [Value.same] using equal
          exact vouched name hn

/-- A row that is known to have relations loaded is marked with each of them. -/
theorem marked_of_known {m : Marks} {names : List String}
    (known : (m.isLoaded row ((names.map Value.text).map .ok)).2 = .ok true) {name : String}
    (own : name ∈ names) : m.Marked row (.text name) := by
  refine Classical.byContradiction fun lacks => ?_
  by_cases null : row.id.isNull = true
  · rw [isLoaded, if_pos null] at known
    cases known
  · rw [isLoaded_of_lacks (Bool.eq_false_of_not_eq_true null)
      ⟨.text name, List.mem_map_of_mem own, lacks⟩] at known
    cases known

end Marks

end Relata
