import Relata.Proofs.Loading.Visits
import Relata.Proofs.Registry.Marks

/-!
Marking, the last thing that a load does. Registries keep their limits, whatever is loaded. So objects
that have identifiers can still be marked in a registry with a limit when what they hold has been set,
and the load ends well.
-/

namespace Relata

open Act (Carries Comes)
open Deed (Made)

namespace World

variable {τ : Type} {w w' w'' : World τ}

/-- Each registry keeps its limit. -/
def SameLimits (w w' : World τ) : Prop := ∀ r, (w'.registryOf r).marks.limit = (w.registryOf r).marks.limit

theorem SameLimits.of_registries (same : w'.registries = w.registries) : w.SameLimits w' := fun r => by
  rw [Env.registryOf, same, Env.registryOf]

theorem SameLimits.trans (h : w.SameLimits w') (h' : w'.SameLimits w'') : w.SameLimits w'' :=
  fun r => (h' r).trans (h r)

theorem sameLimits_remarked {registry : RegistryId} {marks : Marks}
    (same : marks.limit = (w.registryOf registry).marks.limit) : w.SameLimits (w.remarked registry marks) :=
  fun r => by
    obtain there | ⟨rfl, there⟩ := w.marks_remarked registry r marks
    · rw [there]
    · rw [there, same]

end World

namespace Deed

variable {τ : Type} (answers : Request → Except Error (List Row))

theorem allows_sameLimits : Allows (τ := τ) World.SameLimits where
  newObject _ _ := .of_registries rfl
  modified _ _ _ _ := .of_registries rfl
  adopted _ _ := .of_registries rfl
  warned _ _ := .of_registries rfl
  marked _ _ _ _ := World.sameLimits_remarked (Marks.limit_mark _ _ _)

theorem comes_changeMarks {α : Type} (registry : RegistryId) (f : Marks → Marks × Except Error α)
    (w : World τ) : Comes answers (changeMarks registry f) w (f (w.registryOf registry).marks).2
      (w.remarked registry (f (w.registryOf registry).marks).1) :=
  Comes.bind (.modifyGet _ w) (.ofExcept _ _)

/-- Objects that have identifiers can be marked. -/
theorem comes_markObjects {registry : RegistryId} {w : World τ}
    (limit : Marks.IsLimit (w.registryOf registry).marks.limit) {objects : List Value}
    (rows : ∀ o ∈ objects, ∃ v, w.requireProperty o "id" = .ok v ∧ w.isKey v = true) (names : List Value) :
    ∃ t, Comes answers (markObjects registry objects (names.map .ok)) w (.ok ()) t := by
  induction objects generalizing w with
  | nil => exact ⟨w, .pure () w⟩
  | cons o rest ih =>
    obtain ⟨v, read, hash⟩ := rows o (.head _)
    have others : ∀ o ∈ rest, ∃ v, w.requireProperty o "id" = .ok v ∧ w.isKey v = true :=
      fun o there => rows o (.tail _ there)
    cases null : v.isNull with
    | true =>
      obtain ⟨t, comes⟩ := ih limit others
      refine ⟨t, Comes.bind (a := ()) (Comes.bind (.getsExcept_ok _ read) ?_) comes⟩
      rw [null]
      exact .pure () w
    | false =>
      let key : RowKey := ⟨(w.modelOfValue? o).elim .null fun m => .model m.id, w.canonical v⟩
      let next := w.remarked registry ((w.registryOf registry).marks.mark key (names.map .ok)).1
      have same : w.SameLimits next := World.sameLimits_remarked (Marks.limit_mark _ _ _)
      obtain ⟨t, comes⟩ := @ih next (by rw [same]; exact limit) fun o there => by
        obtain ⟨v, read, hash⟩ := others o there
        exact ⟨v, read, (w.isKey_remarked _ _ v).trans hash⟩
      have keyed : (do
          let model := (w.modelOfValue? o).elim .null fun m => Value.model m.id
          return (⟨model, ← w.key v⟩ : RowKey)) = Except.ok key := by
        rw [Env.key, if_pos hash]
        rfl
      have changes := comes_changeMarks answers registry (fun m => m.mark key (names.map .ok)) w
      rw [Marks.mark_ok limit] at changes
      refine ⟨t, Comes.bind (a := ()) (Comes.bind (.getsExcept_ok _ read) ?_) comes⟩
      rw [null]
      exact Comes.bind (.getsExcept_ok _ keyed) changes

end Deed

namespace Loader

variable {τ : Type} {w w' t : World τ} {self : Loader} {ids : List ObjectId} {name : String}

/-- Objects that a loader can mark: it has a registry with a limit for that, and they have identifiers. -/
structure Markable (loader : Loader) (w : World τ) (ids : List ObjectId) : Prop where
  registry : ∃ r, Deed.registryId loader.registry = .ok r ∧ Marks.IsLimit (w.registryOf r).marks.limit
  identified : ∀ id ∈ ids, ∃ e v, w.object? id = some e ∧ e.fields.lookup "id" = some v ∧ w.Key v

theorem Markable.later (h : Markable self w ids) (grows : w.Grows w') (limits : w.SameLimits w') :
    Markable self w' ids where
  registry := by
    obtain ⟨r, own, limit⟩ := h.registry
    exact ⟨r, own, by rw [limits]; exact limit⟩
  identified id there := by
    obtain ⟨e, v, found, own, key⟩ := h.identified id there
    obtain ⟨e', found', -, fields, -⟩ := grows.object found
    exact ⟨e', v, found', fields ▸ own, key.later grows⟩

/-- What can be marked is marked. -/
theorem Markable.comes (answers : Request → Except Error (List Row)) (h : Markable self w ids)
    (name : String) : ∃ t, Comes answers (self.marking ids name) w (.ok ()) t := by
  obtain ⟨r, own, limit⟩ := h.registry
  have rows : ∀ o ∈ ids.map Value.object, ∃ v, w.requireProperty o "id" = .ok v ∧ w.isKey v = true :=
    List.forall_mem_map.mpr fun id there => by
      obtain ⟨e, v, found, own, key⟩ := h.identified id there
      exact ⟨v, World.Holds.requireId (World.holds_of_object? found) own, key w (.refl w)⟩
  obtain ⟨t, marks⟩ := Deed.comes_markObjects answers limit rows [.text name]
  exact ⟨t, Comes.bind (own ▸ .ofExcept _ w) marks⟩

/-- What has been fetched for objects that can be marked is set well. -/
theorem Markable.concludes (h : Markable self w ids) {values : List Value} {sent : Dialogue}
    {r : Except Error Unit}
    (carries : Carries (self.conclude (.text name) (ids.map .object) (.ok values)) w sent r t) :
    r = .ok () := by
  have marks := carries_conclude carries
  have made : Made World.Grows (self.marking (τ := τ) ids name) :=
    (Made.ofExcept _).bind fun _ => Deed.made_markObjects (fun w _ => .of_registries w _) _
  obtain ⟨runs, -⟩ := made.runs_of_carries .refl .trans marks
  obtain ⟨rfl, -⟩ := adds_marking marks
  let set := w.changed ((ids.zip values).map fun p => (p.1, .set name p.2))
  have still : Markable self set ids := h.later (w.grows_changed _) (.of_registries (w.registries_changed _))
  obtain ⟨_, comes⟩ := still.comes (fun _ => .ok []) name
  exact ((runs.comes (List.forall_mem_nil _)).unique comes).1

/-- To set a relation warns of nothing. -/
theorem warnings_of_conclude {values : List Value} {sent : Dialogue} {r : Except Error Unit}
    (carries : Carries (self.conclude (.text name) (ids.map .object) (.ok values)) w sent r t) :
    t.warnings = w.warnings := by
  let Silent (w w' : World τ) : Prop := w'.warnings = w.warnings
  have made : Made Silent (self.marking (τ := τ) ids name) :=
    (Made.ofExcept _).bind fun _ => Deed.made_markObjects (fun _ _ => rfl) _
  obtain ⟨-, silent⟩ :=
    made.runs_of_carries (fun _ => rfl) (fun h h' => Eq.trans h' h) (carries_conclude carries)
  exact silent.trans (by rw [w.changed_eq])

/-- The registries keep their limits until what has been fetched is set. -/
theorem sameLimits_fetching {depth : Nat} {d : Descriptor} {m : Model} {path : String} {pending : List Value}
    {sent : Dialogue} {outcome : Except Error (List Value)}
    (runs : Carries (fetching (below depth) self d m path pending) w sent outcome t) : w.SameLimits t := by
  have made : Made World.SameLimits (fetching (τ := τ) (below depth) self d m path pending) :=
    (@Manner.fetching _ (Deed.makingOf Deed.allows_sameLimits) 0 _ _ _ _ _ (Manner.Tends.fetches
      fun _ _ _ _ _ => Deed.makingOf_of_made _ (made_loadBelow_of Deed.allows_sameLimits _ _ _ _ _))
      pending).1
  exact (made.runs_of_carries (fun _ => .of_registries rfl) .trans runs).2

end Loader

end Relata
