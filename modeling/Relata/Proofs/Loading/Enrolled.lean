import Relata.Proofs.Loading.Collected
import Relata.Proofs.Loading.Dispatched
import Relata.Proofs.Loading.Levels
import Relata.Proofs.Loading.Missing

/-!
How fetching and loading put objects into collections. A query makes one collection, of the objects of its
rows, after whatever is loaded on them has come to its end; the fetch for a relation makes one of all its
pages. Nested however deep, a load leaves each object that it brings in two collections: by induction on
the depth.
-/

namespace Relata

open Act (Runs Carries)
open Deed (Made Stepwise)

namespace Deed

variable {τ α β : Type} {w t : World τ} {sent : Dialogue}

/-- A deed made of the pieces of loading, which leaves the objects that it brings in their collections, save
that some of them, told by the result, are still to be merged. -/
structure Enrolling (x : Deed τ α) (once : α → List ObjectId) : Prop where
  made : Made World.Grows x
  enrols : ∀ {w t : World τ} {sent : Dialogue} {a : α}, Carries x w sent (.ok a) t →
    ∃ lists, w.Enrols t lists (once a)

/-- Nothing is left to be merged. -/
abbrev Settling (x : Deed τ α) : Prop := Enrolling x fun _ => []

/-- Where each step keeps objects in their collections all of them do. -/
theorem enrols_of_stepwise {f : α → Deed τ β} {once : β → List ObjectId} {xs : List α}
    {found : List (Dialogue × β)} (h : ∀ a, Enrolling (f a) once) (steps : Stepwise f w xs found t) :
    ∃ lists, w.Enrols t lists (found.flatMap fun p => once p.2) := by
  induction steps with
  | nil w => exact ⟨[], .refl w⟩
  | cons runs _ _ ih =>
    obtain ⟨lists, enrols⟩ := (h _).enrols runs.carries
    obtain ⟨more, others⟩ := ih
    exact ⟨lists ++ more, enrols.trans others⟩

namespace Enrolling

variable {x : Deed τ α} {f : α → Deed τ β} {once : β → List ObjectId}

theorem ofExcept (r : Except Error α) : Settling (Act.ofExcept r : Deed τ α) where
  made := .ofExcept r
  enrols carries := by
    obtain ⟨-, -, rfl⟩ := carries.silent (.ofExcept r _)
    exact ⟨[], .refl _⟩

theorem pure (a : α) : Settling (Pure.pure a : Deed τ α) := ofExcept (.ok a)

theorem getsExcept (g : World τ → Except Error α) : Settling (Act.getsExcept g) where
  made := .getsExcept g
  enrols carries := by
    obtain ⟨-, -, rfl⟩ := carries.silent (.getsExcept g _)
    exact ⟨[], .refl _⟩

theorem gets (g : World τ → α) : Settling (Act.gets g) := getsExcept fun w => .ok (g w)

theorem bind (hx : Settling x) (hf : ∀ a, Enrolling (f a) once) : Enrolling (x >>= f) once where
  made := hx.made.bind fun a => (hf a).made
  enrols carries := by
    obtain ⟨_, _, a, _, rfl, runs, -, rest⟩ := hx.made.ok_of_bind carries
    obtain ⟨lists, enrols⟩ := hx.enrols runs.carries
    obtain ⟨more, others⟩ := (hf a).enrols rest
    exact ⟨lists ++ more, enrols.trans others⟩

theorem forM {f : α → Deed τ PUnit} (h : ∀ a, Settling (f a)) (xs : List α) : Settling (xs.forM f) := by
  induction xs with
  | nil => exact pure ()
  | cons a rest ih => exact (h a).bind fun _ => ih

end Enrolling

end Deed

open Deed (Enrolling Settling)

variable {τ : Type} {w s t u : World τ} {sent : Dialogue}

namespace Query

/-- The objects of the rows are the new ones, and nothing else has happened. -/
theorem collects_objects {q : Query} {column : Value} {rows : List Row} {found : List (Value × ObjectId)}
    (carries : Carries (rows.mapM (q.object column)) w sent (.ok found) t) :
    w.Collects t [] ∧ ∀ o, o ∈ found.map (·.2) ↔ w.Brought t o := by
  obtain ⟨found, -, rfl, steps⟩ := Made.stepwise (q.made_object column) carries
  clear carries
  induction steps with
  | nil w => exact ⟨.refl w, fun o => by simp [World.Brought]⟩
  | @cons row rest w s t p found runs _ _ ih =>
    obtain ⟨split, e, -, made, -, same, rfl⟩ := carries_object runs.carries
    obtain ⟨collects, all⟩ := ih
    refine ⟨(World.Collects.extended w (slots_of_entity made)).trans collects, fun o => ?_⟩
    have grown := collects.grows.size_le
    rw [List.map_cons, List.map_cons, List.mem_cons, all, same]
    simp only [World.Brought, World.extended, Array.size_push] at grown ⊢
    constructor
    · rintro (rfl | ⟨late, inside⟩)
      · exact ⟨le_rfl, grown⟩
      · exact ⟨Nat.le_of_succ_le late, inside⟩
    · rintro ⟨late, inside⟩
      exact (Nat.eq_or_lt_of_le late).imp Eq.symm fun later => ⟨later, inside⟩

end Query

/-- What a fetch brings for some objects: all of it is in one collection, which has nothing else, and what
the objects are given is of it. -/
structure World.Joins (w t : World τ) (related : List ObjectId) (values : List Value) : Prop where
  united : ∃ c, t.Unites c related
  brought : ∀ o ∈ related, w.Brought t o
  among : ∀ v ∈ values, ∀ y ∈ v.held, ∃ o ∈ related, y = .object o

namespace Loader

variable {depth : Nat} {self : Loader} {d : Descriptor} {parent m : Model} {path name : String}

/-- The objects of all pages come into one collection, whatever pages there are. -/
theorem enrols_adopted {f : List Value → Deed τ (List (Value × ObjectId))} {pieces : List (List Value)}
    {pages : List (Dialogue × List (Value × ObjectId))} (h : ∀ keys, Enrolling (f keys) (List.map (·.2)))
    (steps : Stepwise f w pieces pages u) {related : List ObjectId}
    (all : related = (pages.flatMap (·.2)).map (·.2)) :
    (∃ lists, w.Enrols (u.adopted related) lists []) ∧ (∃ c, (u.adopted related).Unites c related) ∧
      ∀ o ∈ related, w.Brought (u.adopted related) o := by
  obtain ⟨lists, enrols⟩ := Deed.enrols_of_stepwise h steps
  rw [← List.map_flatMap, ← all] at enrols
  exact ⟨⟨_, enrols.merged⟩, ⟨_, World.unites_adopted fun o there => (enrols.due o there).2⟩,
    fun o there => (enrols.due o there).later (u.adds_adopted related).grows⟩

/-- What is changed on values one after the other without an error are objects. -/
theorem objects_of_forM {f : Entity → Entity} (keeps : Entity.KeepsColumns f) {pending : List Value}
    (carries : Carries (pending.forM fun o => Deed.modifyEntity o f) w sent (.ok ()) t) :
    ∃ ids : List ObjectId, pending = ids.map .object := by
  induction pending generalizing w sent with
  | nil => exact ⟨[], rfl⟩
  | cons v rest ih =>
    obtain ⟨_, _, _, _, rfl, runs, -, others⟩ := (Deed.made_modifyEntity v keeps).ok_of_bind carries
    obtain ⟨ids, rfl⟩ := ih others
    cases v with
    | object id => exact ⟨id :: ids, rfl⟩
    | _ =>
      obtain ⟨-, absurd, -⟩ := runs.carries.silent (.ofExcept (.error .noAttribute) w)
      cases absurd

theorem enrols_marking {ids : List ObjectId} (carries : Carries (self.marking ids name) w sent (.ok ()) t) :
    w.Enrols t [] [] := by
  have made : Made (fun w t : World τ => w.Grows t ∧ t.objects = w.objects ∧ t.collections = w.collections)
      (self.marking ids name) :=
    (Made.ofExcept _).bind fun _ => Deed.made_markObjects (fun w _ => ⟨.of_registries w _, rfl, rfl⟩) _
  obtain ⟨grows, objects, collections⟩ := (made.runs_of_carries (fun w => ⟨.refl w, rfl, rfl⟩)
    (fun h h' => ⟨h.1.trans h'.1, h'.2.1.trans h.2.1, h'.2.2.trans h.2.2⟩) carries).2
  exact .of_objects grows objects collections

theorem enrolling_children (members : List Value) : Settling (children (τ := τ) members name) where
  made := made_children members name
  enrols carries := by
    obtain ⟨-, rfl, -⟩ := carries_children_ok carries
    exact ⟨[], .refl _⟩

section

variable (ih : ∀ self objects paths, Settling (τ := τ) (below depth self objects paths))
include ih

/-- What has been loaded on the new objects is in its collections, and they come into the one of the page. -/
theorem enrols_fetch {q : Query} {column registry : Value} {page : Query.Fetched}
    (carries : Carries (q.fetch (below depth) column registry) w sent (.ok page) t) :
    (∃ lists, w.Enrols t lists page.members) ∧ t.Unites page.collection page.members := by
  obtain ⟨f, n, rows, found, told, later, s, u, -, -, -, loops, rfl, rfl, loads⟩ :=
    Query.carries_fetch (fun _ objects => (ih _ objects _).made) carries
  obtain ⟨rows, all⟩ := Query.collects_objects loops
  obtain ⟨lists, enrols⟩ : ∃ lists, s.Enrols u lists [] := by
    obtain ⟨-, rfl⟩ | ⟨-, runs⟩ := loads
    · exact ⟨[], .refl _⟩
    · exact (ih _ _ _).enrols runs.carries
  exact ⟨⟨_, .page rows all enrols⟩, World.unites_adopted fun o there =>
    ((all o).mp there).2.trans_le enrols.grows.size_le⟩

theorem enrolling_fetch (q : Query) (column registry : Value) :
    Enrolling (q.fetch (τ := τ) (below depth) column registry) Query.Fetched.members where
  made := Query.made_fetch (fun _ _ _ => (ih _ _ _).made) q column registry
  enrols carries := (enrols_fetch ih carries).1

/-- The objects of the rows for some keys are those of one page. -/
theorem enrolling_fetchChunk (keys : List Value) :
    Enrolling (fetchChunk (τ := τ) (below depth) self d parent path keys) (List.map (·.2)) where
  made := made_fetchChunk keys
  enrols {w t sent pairs} carries := by
    unfold fetchChunk at carries
    split at carries
    · obtain ⟨q, -, fetches⟩ := Deed.carries_getsExcept_bind carries
      obtain ⟨_, _, page, u, rfl, runs, -, hashes⟩ := (enrolling_fetch ih q _ _).made.ok_of_bind fetches
      obtain ⟨-, same, rfl⟩ := (carries_keysMustHash_bind hashes).silent (.ofExcept (.ok _) u)
      obtain rfl := Except.ok.inj same
      obtain ⟨_, _, _, found, _, _, _, _, -, -, -, -, rfl, -⟩ :=
        Query.carries_fetch (fun _ objects => (ih _ objects _).made) runs.carries
      have tagged : ((found.map (·.1)).zip (found.map (·.2))).map (·.2) = found.map (·.2) :=
        List.map_snd_zip (by simp)
      simpa [Value.isNull, tagged] using (enrolling_fetch ih q _ _).enrols runs.carries
    · next column _ =>
      obtain ⟨q, page, keys, -, fetches, each, rfl⟩ :=
        carries_page (fun o w => w.propertyOrNull (.object o) column)
          (fun q => (enrolling_fetch ih q _ _).made) carries
      rw [List.map_snd_zip each.length_eq.le]
      exact (enrolling_fetch ih q _ _).enrols fetches

theorem enrolling_targetPage (keys : List Value) :
    Enrolling (targetPage (τ := τ) (below depth) self d m path keys) (List.map (·.2)) where
  made := made_targetPage keys
  enrols carries := by
    obtain ⟨q, page, keys, -, fetches, each, rfl⟩ :=
      carries_page (fun o w => w.requireProperty (.object o) "id")
        (fun q => (enrolling_fetch ih q _ _).made) carries
    rw [List.map_snd_zip each.length_eq.le]
    exact (enrolling_fetch ih q _ _).enrols fetches

/-- The fetch for a relation: whatever its pages bring is in one collection. -/
theorem joins_fetchRelated {objects values : List Value}
    (carries : Carries (fetchRelated (below depth) self d parent path objects) w sent (.ok values) t) :
    ∃ pages, sent = pages.flatMap (·.1) ∧ Pages World.Grows self d parent path objects w t pages ∧
      (∃ lists, w.Enrols t lists []) ∧ w.Joins t ((pages.flatMap (·.2)).map (·.2)) values := by
  obtain ⟨keys, pieces, pages, u, read, cut, told, steps, rfl, held⟩ := carries_fetchRelated carries
  obtain ⟨own, -⟩ := pages_adopted World.latitude_grows
    (fun _ _ _ _ _ => .of_made fun _ _ _ => made_loadBelow _ _ _ _ _) read cut steps
  obtain ⟨enrols, united, brought⟩ := enrols_adopted (enrolling_fetchChunk ih) steps rfl
  refine ⟨pages, told, own, enrols, united, brought, fun v there y own => ?_⟩
  obtain ⟨o, -, key, -, rfl⟩ := exists_of_mem_right held there
  obtain ⟨p, related, rfl⟩ := held_heldFor own
  exact ⟨p.2, List.mem_map_of_mem related, rfl⟩

/-- The fetch for one of the models that tags name: whatever its pages bring is in one collection. -/
theorem joins_fetchTargets {target : Value} {members : List Value} {found : List (Value × Value)}
    (carries : Carries (fetchTargets (below depth) self d path target members) w sent (.ok found) t) :
    ∃ pages, sent = pages.flatMap (·.1) ∧ TargetPages World.Grows self d path w t (target, members) pages ∧
      (∃ lists, w.Enrols t lists []) ∧ w.Joins t ((pages.flatMap (·.2)).map (·.2)) (found.map (·.2)) := by
  obtain ⟨m, ids, pieces, pages, u, known, read, cut, told, steps, rfl, values⟩ := carries_fetchTargets carries
  obtain ⟨own, -⟩ := targetPages_adopted World.latitude_grows known
    (fun _ _ _ _ _ => .of_made fun _ _ _ => made_loadBelow _ _ _ _ _) read cut steps
  obtain ⟨enrols, united, brought⟩ := enrols_adopted (enrolling_targetPage ih) steps rfl
  refine ⟨pages, told, own, enrols, united, brought, fun v there y own => ?_⟩
  obtain ⟨p, listed, rfl⟩ := List.mem_map.mp there
  obtain ⟨o, -, -, id, -, same⟩ := exists_of_mem_right values listed
  rw [same, bearer] at own
  cases looked : Value.lookup? id (pages.flatMap (·.2)) with
  | none => simp [looked, Value.held] at own
  | some o =>
    obtain ⟨p, related, rfl⟩ := Value.mem_of_lookup? looked
    rw [looked] at own
    exact ⟨p.2, List.mem_map_of_mem related, List.mem_singleton.mp own⟩

theorem enrolling_fetchTargets (group : Value × List Value) :
    Settling (fetchTargets (τ := τ) (below depth) self d path group.1 group.2) where
  made := made_fetchTargets group.1 group.2
  enrols carries := by
    obtain ⟨_, -, -, enrols, -⟩ := joins_fetchTargets ih carries
    exact enrols

/-- What the fetch gives to objects is new, where their targets depend on the row, -/
theorem enrols_fetchMorphTo {pending values : List Value}
    (carries : Carries (fetchMorphTo (below depth) self d path pending) w sent (.ok values) t) :
    (∃ lists, w.Enrols t lists []) ∧ ∀ v ∈ values, ∀ y ∈ v.held, ∃ o, y = .object o ∧ w.Brought t o := by
  obtain ⟨named, found, -, -, steps, rfl⟩ := carries_fetchMorphTo carries
  have warned := w.grows_warned (named.flatMap (·.2))
  obtain ⟨lists, enrols⟩ := Deed.enrols_of_stepwise (enrolling_fetchTargets ih) steps
  rw [List.flatMap_eq_nil_iff.mpr fun _ _ => rfl] at enrols
  obtain ⟨-, each⟩ := steps.all (R := World.Grows)
    (Q := fun s _ p => ∀ pair ∈ p.2, ∀ y ∈ pair.2.held, ∃ o, y = .object o ∧ w.Brought s o) .refl .trans
    (fun grows own pair there y held => (own pair there y held).imp fun _ new => ⟨new.1, new.2.later grows⟩)
    fun group _ s s' p begun runs grows => ⟨grows, fun pair there y held => by
      obtain ⟨_, -, -, -, joins⟩ := joins_fetchTargets ih runs.carries
      obtain ⟨o, own, rfl⟩ := joins.among _ (List.mem_map_of_mem there) y held
      exact ⟨o, rfl, (joins.brought o own).before (warned.trans begun)⟩⟩
  refine ⟨⟨_, (World.Enrols.of_objects warned rfl rfl).trans enrols⟩, fun v there y own => ?_⟩
  obtain ⟨o, -, rfl⟩ := List.mem_map.mp there
  cases looked : Value.lookup? o (found.flatMap (·.2)).reverse with
  | none => simp [looked, Value.held] at own
  | some x =>
    obtain ⟨pair, listed, rfl⟩ := Value.mem_of_lookup? looked
    obtain ⟨p, hp, there⟩ := List.mem_flatMap.mp (List.mem_reverse.mp listed)
    obtain ⟨group, -, new⟩ := exists_of_mem_right each hp
    rw [looked] at own
    exact new pair there y own

/-- and where the relation leads to one model. -/
theorem enrols_fetching {pending values : List Value}
    (carries : Carries (fetching (below depth) self d parent path pending) w sent (.ok values) t) :
    (∃ lists, w.Enrols t lists []) ∧ ∀ v ∈ values, ∀ y ∈ v.held, ∃ o, y = .object o ∧ w.Brought t o := by
  unfold fetching at carries
  split at carries
  · exact enrols_fetchMorphTo ih carries
  · obtain ⟨pages, -, -, enrols, joins⟩ := joins_fetchRelated ih carries
    refine ⟨enrols, fun v there y own => ?_⟩
    obtain ⟨o, related, rfl⟩ := joins.among v there y own
    exact ⟨o, rfl, joins.brought o related⟩

theorem enrolling_loadPending (pending : List Value) :
    Settling (loadPending (τ := τ) (below depth) self d m path (.text name) pending) where
  made := (@Manner.Loads.loadPending _ _ 0 _ _ _ _ Deed.loads_making tends_making m name _
    fun _ _ => trivial).1
  enrols {w t sent _} carries := by
    obtain ⟨ids, rfl⟩ : ∃ ids : List ObjectId, pending = ids.map .object := by
      rw [loadPending_eq] at carries
      obtain ⟨_, _, _, _, -, begins, -, -⟩ := (Made.forM fun v =>
        Deed.made_modifyEntity v (Entity.keepsColumns_beginLoading (.text name))).ok_of_bind carries
      exact objects_of_forM (Entity.keepsColumns_beginLoading _) begins.carries
    obtain ⟨first, last, outcome, u, -, runs, -, concludes⟩ := carries_loadPending carries
    cases outcome with
    | error e =>
      obtain ⟨-, absurd, -⟩ := concludes.silent (runs_abandon e u)
      cases absurd
    | ok values =>
      obtain ⟨⟨lists, enrols⟩, new⟩ := enrols_fetching ih runs.carries
      have begins : w.Enrols (begun w ids name) [] [] := (World.Enrols.refl w).changed (by simp)
      have brought : ∀ c ∈ (ids.zip values).map fun p => (p.1, SlotChange.set name p.2), ∀ other x,
          c.2 = .set other x → ∀ y ∈ x.held, ∃ o, y = .object o ∧ w.Brought u o := by
        intro c there other x same y held
        obtain ⟨p, listed, rfl⟩ := List.mem_map.mp there
        obtain ⟨-, rfl⟩ := SlotChange.set.inj same
        obtain ⟨o, rfl, own⟩ := new _ (List.of_mem_zip listed).2 y held
        exact ⟨o, rfl, own.before begins.grows⟩
      have sets := (begins.trans enrols).changed brought
      exact ⟨_, sets.trans (enrols_marking (carries_conclude concludes))⟩

theorem enrolling_loadRelation (members : List Value) (at_ : Position) :
    Settling (loadRelation (τ := τ) (below depth) self members name at_) := by
  refine (Enrolling.getsExcept _).bind fun found => ?_
  cases found with
  | none => exact .pure _
  | some found =>
    refine (Enrolling.gets _).bind fun loaded => ?_
    dsimp only
    generalize (if self.force = true then members else members.filter (!loaded ·)) = pending
    split
    · exact (enrolling_loadPending ih pending).bind fun _ => .pure _
    · exact .pure _

end

/-- However deep a load nests, what it brings is in its collections in the end: by induction on the depth. -/
theorem enrolling_loadBelow (depth : Nat) (self : Loader) (objects paths : List Value) (at_ : Position) :
    Settling (loadBelow (τ := τ) depth self objects paths at_) := by
  induction depth generalizing self objects paths at_ with
  | zero => exact .ofExcept (.error .tooDeep)
  | succ depth ih =>
    have nested (self : Loader) (objects paths : List Value) :
        Settling (τ := τ) (below depth self objects paths) := ih self objects paths ⟨"", false⟩
    rw [loadBelow]
    refine (Enrolling.ofExcept _).bind fun read => ?_
    dsimp only
    -- Columns written behind the paths are the loader's from here on.
    generalize List.foldl _ self.columns read = columns
    refine (Enrolling.gets _).bind fun groups => .forM (fun group => ?_) groups
    refine (Enrolling.ofExcept _).bind fun segments => .forM (fun g => ?_) _
    refine (enrolling_loadRelation nested group.2 at_).bind fun found => ?_
    cases found with
    | none => exact .pure ()
    | some d =>
      dsimp only
      split
      · refine (enrolling_children group.2).bind fun below => ?_
        split
        · exact ih _ _ _ _
        · exact .pure ()
      · exact .pure ()

end Loader

end Relata
