import Relata.Proofs.Loading.Failing
import Relata.Proofs.Loading.Fetched

/-!
Visits. A load of one relation on objects that do not hold it sends one batch of statements for all of
them, sets the relation on each to what belongs to its key, and leaves all other relations of all other
objects as they are; what it sets leads to new objects only.
-/

namespace Relata

open Act (Runs Carries)
open Deed (Made)

namespace SlotChange

/-- The change is one of that relation. -/
def At (name : String) : SlotChange → Prop
  | set other _ | forget other | begin_ other | abandon other => other = name

theorem keepsColumns (c : SlotChange) : Entity.KeepsColumns c.onEntity := by
  cases c with
  | set name v => exact Entity.keepsColumns_setRelation _ v
  | forget name => exact fun _ => ⟨rfl, rfl, rfl⟩
  | begin_ name => exact Entity.keepsColumns_beginLoading _
  | abandon name => exact Entity.keepsColumns_abandonLoading _

theorem value?_onEntity {c : SlotChange} {name other : String} (h : c.At name) (apart : other ≠ name)
    (e : Entity) : (c.onEntity e).value? (.text other) = e.value? (.text other) := by
  cases c with
  | set n v =>
    obtain rfl : n = name := h
    rw [onEntity, Entity.value?_setRelation_text, if_neg apart]
  | forget n =>
    obtain rfl : n = name := h
    rw [onEntity, Entity.value?_forgetRelation_text, if_neg apart]
  | begin_ n => exact Entity.value?_beginLoading e n other
  | abandon n => exact Entity.value?_abandonLoading e n other

end SlotChange

namespace World

variable {τ : Type} {w w' w'' : World τ} {ids : List ObjectId} {id : ObjectId} {name : String}

/-- What a relation of an object holds, if it is loaded. -/
def valueOf (w : World τ) (id : ObjectId) (name : String) : Option Value :=
  (w.object? id).bind (·.value? (.text name))

theorem valueOf_of_slotsOf (same : w'.slotsOf id = w.slotsOf id) (name : String) :
    w'.valueOf id name = w.valueOf id name := by
  have read (w : World τ) : w.valueOf id name =
      Entity.value? ⟨0, [], [], w.slotsOf id, none⟩ (.text name) := by
    unfold valueOf slotsOf
    cases w.object? id <;> rfl
  rw [read, read, same]

/-- Of the relations of all objects, only that one of those objects may have changed. -/
structure Alters (ids : List ObjectId) (name : String) (w w' : World τ) : Prop where
  grows : w.Grows w'
  size : w.objects.size ≤ w'.objects.size
  apart : ∀ id, id ∉ ids → w'.slotsOf id = w.slotsOf id
  others : ∀ id other, other ≠ name → w'.valueOf id other = w.valueOf id other

theorem Alters.trans (h : w.Alters ids name w') (h' : w'.Alters ids name w'') :
    w.Alters ids name w'' where
  grows := h.grows.trans h'.grows
  size := h.size.trans h'.size
  apart id out := (h'.apart id out).trans (h.apart id out)
  others id other ne := (h'.others id other ne).trans (h.others id other ne)

theorem Adds.alters (h : w.Adds w') (ids : List ObjectId) (name : String) : w.Alters ids name w' where
  grows := h.grows
  size := h.untouched.grown
  apart id _ := h.untouched.slots id
  others id other _ := valueOf_of_slotsOf (h.untouched.slots id) other

theorem adds_of_objects (grows : w.Grows w') (same : w'.objects = w.objects) : w.Adds w' :=
  ⟨.of_objects same, grows⟩

theorem alters_modified (w : World τ) {c : SlotChange} (there : id ∈ ids) (at_ : c.At name) :
    w.Alters ids name (w.modified id c.onEntity) where
  grows := .of_modify w id c.keepsColumns
  size := by simp [modified]
  apart other out := by
    have ne : id ≠ other := fun own => out (own ▸ there)
    rw [slotsOf_modified, if_neg ne]
  others other n ne := by
    unfold valueOf
    rw [object?_modified]
    split
    · cases w.object? other with
      | none => rfl
      | some e => exact SlotChange.value?_onEntity at_ ne e
    · rfl

/-- Changes to one relation of some objects. -/
theorem alters_changed {changes : List (ObjectId × SlotChange)}
    (among : ∀ c ∈ changes, c.1 ∈ ids ∧ c.2.At name) : w.Alters ids name (w.changed changes) := by
  induction changes generalizing w with
  | nil => exact (Adds.refl w).alters ids name
  | cons c rest ih =>
    obtain ⟨there, at_⟩ := among c (.head _)
    exact (w.alters_modified there at_).trans (ih fun c there => among c (.tail _ there))

theorem grows_changed (w : World τ) (changes : List (ObjectId × SlotChange)) :
    w.Grows (w.changed changes) := by
  induction changes generalizing w with
  | nil => exact .refl w
  | cons c rest ih => exact (Grows.of_modify w c.1 c.2.keepsColumns).trans (ih _)

theorem size_changed (w : World τ) (changes : List (ObjectId × SlotChange)) :
    (w.changed changes).objects.size = w.objects.size := by
  induction changes generalizing w with
  | nil => rfl
  | cons c rest ih => exact (ih _).trans (by simp [modified])

/-- To begin a load and to give it up leaves what objects hold. -/
theorem valueOf_changed_of_passing {changes : List (ObjectId × SlotChange)}
    (passing : ∀ c ∈ changes, c.2.Passing name) (id : ObjectId) (other : String) :
    (w.changed changes).valueOf id other = w.valueOf id other := by
  unfold valueOf
  cases there : w.object? id with
  | some e =>
    obtain ⟨e', there', alike, -⟩ := alikeBut_changed passing there
    rw [there']
    exact alike.value other
  | none =>
    have size : (w.changed changes).objects.size = w.objects.size := size_changed w changes
    rw [Env.object?, Array.getElem?_eq_none_iff] at there
    rw [Env.object?, Array.getElem?_eq_none_iff.mpr (size ▸ there)]

/-- What is set of a relation is held by it: what was set last. -/
theorem valueOf_changed_set {pairs : List (ObjectId × Value)} (there : id ∈ pairs.map (·.1))
    (present : ∀ p ∈ pairs, p.1 < w.objects.size) :
    ∃ v, (id, v) ∈ pairs ∧
      (w.changed (pairs.map fun p => (p.1, .set name p.2))).valueOf id name = some v := by
  induction pairs generalizing w with
  | nil => cases there
  | cons p rest ih =>
    obtain ⟨first, v⟩ := p
    have kept : (w.modified first (SlotChange.set name v).onEntity).objects.size = w.objects.size := by
      simp [modified]
    by_cases later : id ∈ rest.map (·.1)
    · obtain ⟨x, own, held⟩ := ih later fun p hp => kept ▸ present p (.tail _ hp)
      exact ⟨x, .tail _ own, held⟩
    · obtain rfl : id = first := by simpa [later] using there
      refine ⟨v, .head _, ?_⟩
      have among : ∀ c ∈ rest.map fun p => (p.1, SlotChange.set name p.2),
          c.1 ∈ rest.map (·.1) ∧ c.2.At name := by
        intro c hc
        obtain ⟨p, hp, rfl⟩ := List.mem_map.mp hc
        exact ⟨List.mem_map_of_mem hp, rfl⟩
      have still : ((w.modified id (SlotChange.set name v).onEntity).changed
          (rest.map fun p => (p.1, .set name p.2))).slotsOf id =
          (w.modified id (SlotChange.set name v).onEntity).slotsOf id :=
        (alters_changed (w := w.modified id (SlotChange.set name v).onEntity) among).apart id later
      refine (valueOf_of_slotsOf still name).trans ?_
      obtain ⟨e, own⟩ : ∃ e, w.object? id = some e :=
        ⟨_, Array.getElem?_eq_getElem (present _ (.head _))⟩
      rw [valueOf, object?_modified, if_pos rfl, own]
      exact (Entity.value?_setRelation_text e name name v).trans (if_pos rfl)

end World

namespace Deed

variable {τ α β : Type}

/-- The deed sends nothing and adds objects at most. -/
def Quiet (x : Deed τ α) : Prop := ∀ w : World τ, ∃ r t, Runs Eq x w [] r t ∧ w.Adds t

namespace Quiet

theorem ofExcept (r : Except Error α) : Quiet (Act.ofExcept r : Deed τ α) := fun w =>
  ⟨r, w, .ofExcept r w, .refl w⟩

theorem getsExcept (f : World τ → Except Error α) : Quiet (Act.getsExcept f) := fun w =>
  ⟨f w, w, .getsExcept f w, .refl w⟩

theorem modifyGet {f : World τ → α × World τ} (adds : ∀ w : World τ, w.Adds (f w).2) : Quiet (Act.modifyGet f) :=
  fun w => ⟨_, _, .modifyGet f w, adds w⟩

theorem bind {x : Deed τ α} {f : α → Deed τ β} (hx : Quiet x) (hf : ∀ a, Quiet (f a)) :
    Quiet (x >>= f) := by
  intro w
  obtain ⟨r, w', runs, adds⟩ := hx w
  cases r with
  | error e => exact ⟨_, w', runs.bind_error f, adds⟩
  | ok a =>
    obtain ⟨r, t, runs', adds'⟩ := hf a w'
    exact ⟨r, t, runs.bind runs', adds.trans adds'⟩

theorem forM {xs : List α} {f : α → Deed τ PUnit} (h : ∀ a, Quiet (f a)) : Quiet (xs.forM f) := by
  induction xs with
  | nil => exact ofExcept (.ok ())
  | cons a rest ih => exact (h a).bind fun _ => ih

end Quiet

theorem quiet_markObjects (registry : RegistryId) (objects : List Value) (names : Names) :
    Quiet (markObjects (τ := τ) registry objects names) := by
  refine .forM fun o => (Quiet.getsExcept _).bind fun id => ?_
  split
  · refine (Quiet.getsExcept _).bind fun key => Quiet.bind (.modifyGet fun w => ?_) fun outcome =>
      .ofExcept outcome
    exact World.adds_of_objects (.of_registries w _) rfl
  · exact .ofExcept (.ok ())

end Deed

namespace Loader

variable {τ : Type} {w t : World τ} {sent : Dialogue} {depth : Nat} {self : Loader} {d : Descriptor}
  {m : Model} {path name : String} {ids : List ObjectId}

theorem Batch.later {objects : List Value} {t' : World τ} {pages : List (Dialogue × List (Value × ObjectId))}
    (h : Batch self d m path objects w t pages) (grows : t.Grows t') :
    Batch self d m path objects w t' pages := by
  obtain ⟨keys, pieces, read, cut, each⟩ := h.pieces
  refine ⟨keys, pieces, read, cut, each.imp fun keys page own => ?_⟩
  obtain ⟨w', q, made, before, built, brings, chunk⟩ := own
  exact ⟨w', q, made, before, built, brings, chunk.imp fun _ _ own => own.later le_rfl grows⟩

/-- The changes that begin a fetch. -/
abbrev begun (w : World τ) (ids : List ObjectId) (name : String) : World τ :=
  w.changed (ids.map (·, .begin_ name))

/-- The queries for a relation ask for no relations in turn. -/
def Flat (self : Loader) (l : Lookup) (d : Descriptor) (m : Model) (path : String) : Prop :=
  ∀ env : Env, env.toLookup = l → ∀ keys q, self.chunkQuery env d m path keys = .ok q → q.loads.paths = []

/-- A fetch adds objects, however it ends. -/
theorem adds_fetching {pending : List Value} {r : Except Error (List Value)} (fixed : d.kind ≠ .morphTo)
    (flat : self.Flat w.toLookup d m path)
    (runs : Runs Eq (fetching (below depth) self d m path pending) w sent r t) (grows : w.Grows t) :
    w.Adds t := by
  have asks : self.AsksNoMore d m path w :=
    ⟨fun w' kept => flat w'.toEnv kept.lookup, fun morph => absurd morph fixed⟩
  have others : ∀ {s s' : World τ}, s = s' → s.Undisturbed s' := by
    rintro s _ rfl
    exact .refl s
  exact ⟨((ends_fetching asks pending).holds (Act.injective_map fun _ _ => Value.list.inj) others runs).relations,
    grows⟩

/-- What comes of a load of a relation that is fetched for all of the objects. -/
structure Visit (loader : Loader) (d : Descriptor) (m : Model) (path name : String) (ids : List ObjectId)
    (w t : World τ) (sent : Dialogue) : Prop where
  batch : ∃ w' pages, sent = pages.flatMap (·.1) ∧ (begun w ids name).Adds w' ∧ w'.Grows t ∧
    Batch loader d m path (ids.map .object) (begun w ids name) t pages ∧
    ∀ id ∈ ids, ∃ key, w'.propertyOrNull (.object id) (Descriptor.written d.parentAttribute) = .ok key ∧
      t.valueOf id name = some (heldFor d (pages.flatMap (·.2)) key)

theorem Deed.runs_set (pairs : List (ObjectId × Value)) (name : String) (w : World τ) :
    Runs Eq (pairs.forM fun p => Deed.modifyEntity (.object p.1) (·.setRelation (.text name) p.2)) w []
      (.ok ()) (w.changed (pairs.map fun p => (p.1, .set name p.2))) := by
  have runs := @Deed.runs_changes _ Eq (pairs.map fun p => (p.1, SlotChange.set name p.2)) w
  rw [List.forM_eq_forM, List.forM_map] at runs
  exact runs

/-- Marking sends nothing and leaves the objects alone, whatever comes of it. -/
theorem adds_marking {given : Value} {objects : List Value} {slot : Value} {r : Except Error Unit}
    (carries : Carries (Act.ofExcept (Deed.registryId given) >>= fun registry =>
      Deed.markObjects registry objects [.ok slot]) w sent r t) : sent = [] ∧ w.Adds t := by
  obtain ⟨r', t', runs, adds⟩ := (Deed.Quiet.bind (.ofExcept (Deed.registryId given)) fun registry =>
    Deed.quiet_markObjects registry objects [.ok slot]) w
  obtain ⟨rfl, -, rfl⟩ := carries.silent runs
  exact ⟨rfl, adds⟩

/-- A load marks the objects as being loaded, fetches, and acts on what comes of it. -/
theorem carries_loadPending {r : Except Error Unit}
    (carries : Carries (loadPending (below depth) self d m path (.text name) (ids.map .object)) w sent r t) :
    ∃ first last outcome w', sent = first ++ last ∧
      Runs Eq (fetching (below depth) self d m path (ids.map .object)) (begun w ids name) first outcome w' ∧
      (begun w ids name).Grows w' ∧
      Carries (self.conclude (.text name) (ids.map .object) outcome) w' last r t := by
  rw [loadPending_eq] at carries
  have begins : Runs Eq _ w [] (.ok ()) (begun w ids name) := Deed.runs_change_each (.begin_ name) ids w
  have made_begins : Made World.Grows ((ids.map Value.object).forM fun o =>
      Deed.modifyEntity (τ := τ) o (·.beginLoading (.text name))) :=
    .forM fun o => Deed.made_modifyEntity o (Entity.keepsColumns_beginLoading _)
  obtain ⟨e, rfl, failed, -⟩ | ⟨_, later, _, w₁, rfl, started, -, rest⟩ := made_begins.of_bind carries
  · obtain ⟨-, absurd, -⟩ := failed.carries.silent begins
    cases absurd
  obtain ⟨rfl, -, rfl⟩ := started.carries.silent begins
  obtain ⟨e, rfl, failed, -⟩ | ⟨first, last, outcome, w₂, rfl, tried, -, concludes⟩ :=
    (made_fetching _).attempt.of_bind rest
  · obtain ⟨_, absurd, -⟩ := (made_fetching _).of_attempt failed.carries
    cases absurd
  obtain ⟨_, same, runs, grows⟩ := (made_fetching _).of_attempt tried.carries
  obtain rfl := Except.ok.inj same
  exact ⟨first, last, outcome, w₂, rfl, runs, grows, concludes⟩

/-- A fetch that has failed is taken back. -/
theorem runs_abandon (e : Error) (w : World τ) :
    Runs Eq (self.conclude (.text name) (ids.map .object) (.error e)) w [] (.error e)
      (w.changed (ids.map (·, .abandon name))) :=
  Runs.bind (Deed.runs_change_each (.abandon name) ids w) (.ofExcept (.error e) _)

/-- What a load does last: the objects are marked as having the relation loaded. -/
def marking (self : Loader) (ids : List ObjectId) (name : String) : Deed τ Unit := do
  let registry ← Act.ofExcept (Deed.registryId self.registry)
  Deed.markObjects registry (ids.map .object) [.ok (.text name)]

/-- The values that a fetch has come to are set, and what comes of it is what comes of marking. -/
theorem carries_conclude {values : List Value} {r : Except Error Unit}
    (carries : Carries (self.conclude (.text name) (ids.map .object) (.ok values)) w sent r t) :
    Carries (self.marking ids name) (w.changed ((ids.zip values).map fun p => (p.1, .set name p.2)))
      sent r t := by
  let pairs := ids.zip values
  have sets := Deed.runs_set pairs name w
  have made_sets : Made World.Grows (pairs.forM fun p =>
      Deed.modifyEntity (τ := τ) (.object p.1) (·.setRelation (.text name) p.2)) :=
    .forM fun p => Deed.made_modifyEntity _ (Entity.keepsColumns_setRelation _ _)
  have zipped : (ids.map Value.object).zip values = pairs.map fun p => (.object p.1, p.2) := by
    rw [List.zip_map_left]
    rfl
  rw [conclude, settle, zipped, List.forM_eq_forM, List.forM_map] at carries
  obtain ⟨e, rfl, failed, -⟩ | ⟨_, later, _, w₁, rfl, set, -, marking⟩ := made_sets.of_bind carries
  · obtain ⟨-, absurd, -⟩ := failed.carries.silent sets
    cases absurd
  · obtain ⟨rfl, -, rfl⟩ := set.carries.silent sets
    exact marking

/-- The values that a fetch has come to are set, each on its object. -/
theorem concluded {values : List Value} {r : Except Error Unit} (length : values.length = ids.length)
    (present : ∀ id ∈ ids, id < w.objects.size)
    (carries : Carries (self.conclude (.text name) (ids.map .object) (.ok values)) w sent r t) :
    sent = [] ∧ w.Alters ids name t ∧ ∀ id ∈ ids, ∃ v,
      (.object id, v) ∈ (ids.map Value.object).zip values ∧ t.valueOf id name = some v := by
  let pairs := ids.zip values
  obtain ⟨rfl, marked⟩ := adds_marking (carries_conclude carries)
  have named : pairs.map (·.1) = ids := List.map_fst_zip length.ge
  have altered : w.Alters ids name (w.changed (pairs.map fun p => (p.1, .set name p.2))) :=
    World.alters_changed fun c there => by
      obtain ⟨p, own, rfl⟩ := List.mem_map.mp there
      exact ⟨named ▸ List.mem_map_of_mem own, rfl⟩
  have inside : ∀ p ∈ pairs, p.1 < w.objects.size := fun p there => present p.1 (List.of_mem_zip there).1
  refine ⟨rfl, altered.trans (marked.alters ids name), fun id own => ?_⟩
  obtain ⟨v, there, value⟩ := @World.valueOf_changed_set _ w _ name _ (named.symm ▸ own) inside
  refine ⟨v, ?_, (World.valueOf_of_slotsOf (marked.untouched.slots id) name).trans value⟩
  rw [List.zip_map_left]
  exact List.mem_map_of_mem there

/-- A load of one relation, as far as it comes: the relation is set on all of the objects, or nothing that
an object holds has changed. -/
theorem runs_loadPending {r : Except Error Unit} (fixed : d.kind ≠ .morphTo)
    (flat : self.Flat w.toLookup d m path) (present : ∀ id ∈ ids, id < w.objects.size)
    (carries : Carries (loadPending (below depth) self d m path (.text name) (ids.map .object)) w sent r t) :
    w.Alters ids name t ∧ (Visit self d m path name ids w t sent ∨
      (∀ id other, t.valueOf id other = w.valueOf id other) ∧ ∃ e, r = .error e) := by
  have marks (c : SlotChange) (at_ : c.At name) (w : World τ) :
      w.Alters ids name (w.changed (ids.map (·, c))) :=
    World.alters_changed fun p there => by
      obtain ⟨id, own, rfl⟩ := List.mem_map.mp there
      exact ⟨own, at_⟩
  have passing (c : SlotChange) (passes : c.Passing name) : ∀ p ∈ ids.map (·, c), p.2.Passing name := by
    simpa using fun _ _ => passes
  obtain ⟨first, last, outcome, w₂, rfl, runs, grows, concludes⟩ := carries_loadPending carries
  have begun_ := marks (.begin_ name) rfl w
  have flat₁ : self.Flat (begun w ids name).toLookup d m path := begun_.grows.lookup ▸ flat
  have adds := adds_fetching fixed flat₁ runs grows
  cases outcome with
  | error e =>
    obtain ⟨-, rfl, rfl⟩ := concludes.silent (runs_abandon e w₂)
    refine ⟨begun_.trans ((adds.alters ids name).trans (marks (.abandon name) rfl w₂)),
      .inr ⟨fun id other => ?_, e, rfl⟩⟩
    rw [World.valueOf_changed_of_passing (passing (.abandon name) rfl),
      World.valueOf_of_slotsOf (adds.untouched.slots id),
      World.valueOf_changed_of_passing (passing (.begin_ name) rfl)]
  | ok values =>
    have related : Carries (fetchRelated (below depth) self d m path (ids.map .object))
        (begun w ids name) first (.ok values) w₂ := by
      have kind : (d.kind == .morphTo) = false := by simpa using fixed
      have whole := runs.carries
      rwa [fetching, kind] at whole
    obtain ⟨pages, rfl, batch, held, -⟩ := runs_fetchRelated
      (fun w' adds keys q built => flat₁ w'.toEnv adds.grows.lookup keys q built) related
    obtain ⟨rfl, altered, set⟩ := concluded (by simpa using held.length_eq.symm)
      (fun id own => (present id own).trans_le (begun_.size.trans adds.untouched.grown)) concludes
    refine ⟨begun_.trans ((adds.alters ids name).trans altered), .inl ⟨w₂, pages, by simp, adds,
      altered.grows, batch.later altered.grows, fun id own => ?_⟩⟩
    obtain ⟨v, among, value⟩ := set id own
    obtain ⟨key, read, rfl⟩ := List.forall₂_zip held among
    exact ⟨key, read, value⟩

theorem tends_making : (Deed.making (τ := τ)).Tends (below depth) :=
  fun _ _ _ _ _ => Deed.making_of_made (made_loadBelow _ _ _ _ _)

/-- A load of a relation that none of the objects holds. -/
theorem runs_loadRelation {r : Except Error (Option Descriptor)} {above : String} (some_ : ids ≠ [])
    (own : ∀ id ∈ ids, w.modelOfValue? (.object id) = some m)
    (lack : ∀ id ∈ ids, w.valueOf id name = none)
    (straight : ∀ d, w.require m (.text name) = .ok d →
      d.kind ≠ .morphTo ∧ self.Flat w.toLookup d m (above ++ name))
    (carries : Carries (loadRelation (below depth) self (ids.map .object) name ⟨above, false⟩) w sent r t) :
    (∃ e, r = .error e ∧ sent = [] ∧ t = w) ∨
      ∃ d, w.require m (.text name) = .ok d ∧ w.Alters ids name t ∧
        (r = .ok (some d) ∧ Visit self d m (above ++ name) name ids w t sent ∨
          (∃ e, r = .error e) ∧ (Visit self d m (above ++ name) name ids w t sent ∨
            ∀ id other, t.valueOf id other = w.valueOf id other)) := by
  obtain ⟨first, rest, rfl⟩ := List.exists_cons_of_ne_nil some_
  have pending : (if self.force then (first :: rest).map Value.object
      else ((first :: rest).map Value.object).filter (!w.isLoadedOn (.text name) ·)) =
        (first :: rest).map .object := by
    split
    · rfl
    · refine List.filter_eq_self.mpr (List.forall_mem_map.mpr fun id there => ?_)
      have none := lack id there
      rw [World.valueOf] at none
      simp only [Env.isLoadedOn, Entity.isLoaded, Bool.not_eq_true', Option.any_eq_false]
      intro e found
      rw [found] at none
      exact (congrArg Option.isSome none : (e.value? (.text name)).isSome = false)
  have looked : described w.toEnv false (.object first) name =
      (w.require m (.text name)).map fun d => some (m, d) := by
    rw [described, own first (.head _)]
    rfl
  obtain ⟨e, failed, rfl, rfl, rfl⟩ | ⟨found, same, carries⟩ := Deed.of_carries_getsExcept_bind carries
  · exact .inl ⟨e, rfl, rfl, rfl⟩
  rw [List.map_cons, List.headD_cons, looked] at same
  cases required : w.require m (.text name) with
  | error e =>
    rw [required] at same
    cases same
  | ok d =>
    rw [required] at same
    obtain rfl := Except.ok.inj same
    have carries := Deed.carries_gets_bind carries
    dsimp only at carries
    rw [pending, if_pos (by simp)] at carries
    obtain ⟨fixed, flat⟩ := straight d required
    have present : ∀ id ∈ first :: rest, id < w.objects.size := fun id there => by
      obtain ⟨e, found, -⟩ := Option.bind_eq_some_iff.mp (own id there)
      exact (Array.getElem?_eq_some_iff.mp found).1
    have made : Made World.Grows (loadPending (τ := τ) (below depth) self d m (above ++ name) (.text name)
        ((first :: rest).map .object)) :=
      (@Manner.Loads.loadPending _ _ 0 _ _ _ _ Deed.loads_making tends_making m name _ fun _ _ => trivial).1
    obtain ⟨e, rfl, runs, -⟩ | ⟨_, later, _, w', rfl, runs, -, ends⟩ := made.of_bind carries
    · obtain ⟨alters, came⟩ := runs_loadPending fixed flat present runs.carries
      exact .inr ⟨d, rfl, alters, .inr ⟨⟨e, rfl⟩, came.imp_right And.left⟩⟩
    · obtain ⟨alters, came⟩ := runs_loadPending fixed flat present runs.carries
      obtain ⟨rfl, rfl, rfl⟩ := ends.silent (.ofExcept (.ok (some d)) w')
      obtain visit | ⟨-, e, absurd⟩ := came
      · rw [List.append_nil]
        exact .inr ⟨d, rfl, alters, .inl ⟨rfl, visit⟩⟩
      · cases absurd

end Loader

end Relata
