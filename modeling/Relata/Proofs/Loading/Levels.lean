import Relata.Proofs.Loading.Visits
import Relata.Proofs.Query.Sourced
import Relata.Proofs.Schema.Listed

/-!
Levels. The objects that a path leads to from some others are a level; they are read off the relations
that have been loaded. What a visit sets on the objects of one level leads to objects of the related
model, made during the visit; so the next level is new, holds nothing yet, and is all of one class.
-/

namespace Relata

open Act (Runs Carries)
open Deed (Made)

/-- The objects that a value of a relation leads to. -/
def Value.leads (v : Value) : List ObjectId :=
  v.held.filterMap fun x => match x with
    | .object id => some id
    | _ => none

theorem Value.mem_leads {v : Value} {o : ObjectId} : o ∈ v.leads ↔ .object o ∈ v.held := by
  unfold leads
  rw [List.mem_filterMap]
  constructor
  · rintro ⟨x, there, same⟩
    split at same
    · obtain rfl := Option.some.inj same
      exact there
    · cases same
  · exact fun there => ⟨_, there, rfl⟩

namespace World

variable {τ : Type} {w w' : World τ} {xs : List ObjectId} {name : String}

/-- The objects that a relation leads to from some others. -/
def onward (w : World τ) (xs : List ObjectId) (name : String) : List ObjectId :=
  xs.flatMap fun id => ((w.valueOf id name).map Value.leads).getD []

/-- The objects that a path leads to, segment by segment. -/
def level (w : World τ) : List ObjectId → List String → List ObjectId
  | xs, [] => xs
  | xs, name :: rest => w.level (w.onward xs name) rest

theorem level_nil (w : World τ) (p : List String) : w.level [] p = [] := by
  induction p with
  | nil => rfl
  | cons name rest ih => exact ih

theorem level_append (w : World τ) (xs : List ObjectId) (p q : List String) :
    w.level xs (p ++ q) = w.level (w.level xs p) q := by
  induction p generalizing xs with
  | nil => rfl
  | cons name rest ih => exact ih _

theorem mem_onward {o : ObjectId} :
    o ∈ w.onward xs name ↔ ∃ id ∈ xs, ∃ v, w.valueOf id name = some v ∧ o ∈ v.leads := by
  simp only [onward, List.mem_flatMap]
  refine exists_congr fun id => and_congr_right fun _ => ?_
  cases w.valueOf id name <;> simp

theorem onward_congr (same : ∀ id ∈ xs, w'.valueOf id name = w.valueOf id name) :
    w'.onward xs name = w.onward xs name := by
  unfold onward
  exact List.flatMap_congr fun id there => by rw [same id there]

/-- Levels that lead on within some objects only, on which nothing has changed. -/
theorem level_congr {R : ObjectId → Prop} (inside : ∀ xs name, (∀ o ∈ xs, R o) → ∀ o ∈ w.onward xs name, R o)
    (same : ∀ id name, R id → w'.valueOf id name = w.valueOf id name) (begins : ∀ o ∈ xs, R o)
    (p : List String) : w'.level xs p = w.level xs p ∧ ∀ o ∈ w.level xs p, R o := by
  induction p generalizing xs with
  | nil => exact ⟨rfl, begins⟩
  | cons name rest ih =>
    rw [level, level, onward_congr fun id there => same id name (begins id there)]
    exact ih (inside xs name begins)

/-- A path is loaded: there are objects that its last relation can be loaded on, and they hold it. -/
def Loaded (w : World τ) (xs : List ObjectId) (p : List String) : Prop :=
  w.level xs p.dropLast ≠ [] ∧
    ∀ id ∈ w.level xs p.dropLast, ∃ name v, p.getLast? = some name ∧ w.valueOf id name = some v

theorem valueOf_eq_none {id : ObjectId} (absent : w.objects.size ≤ id) (name : String) :
    w.valueOf id name = none := by
  rw [valueOf, Env.object?, Array.getElem?_eq_none absent]
  rfl

theorem Grows.modelOfValue? (h : w.Grows w') {v : Value} {m : Model} (own : w.modelOfValue? v = some m) :
    w'.modelOfValue? v = some m := by
  cases v with
  | object id =>
    obtain ⟨e, there, known⟩ := Option.bind_eq_some_iff.mp own
    obtain ⟨e', there', model, -⟩ := h.object there
    refine Option.bind_eq_some_iff.mpr ⟨e', there', ?_⟩
    rw [Env.modelOf?, model, h.lookup]
    exact known
  | _ => cases own

theorem grows_begun (w : World τ) (ids : List ObjectId) (name : String) :
    w.Grows (w.changed (ids.map (·, .begin_ name))) := w.grows_changed _

theorem lt_size_of_modelOfValue? {id : ObjectId} {m : Model} (h : w.modelOfValue? (.object id) = some m) :
    id < w.objects.size := by
  obtain ⟨e, there, -⟩ := Option.bind_eq_some_iff.mp h
  exact (Array.getElem?_eq_some_iff.mp there).1

theorem Holds.lt_size {o : ObjectId} {e : Entity} (h : w.Holds o e) : o < w.objects.size := by
  obtain ⟨e', there, -⟩ := h
  exact (Array.getElem?_eq_some_iff.mp there).1

end World

namespace Loader

variable {τ : Type} {w t : World τ} {sent : Dialogue} {loader : Loader} {d : Descriptor} {m : Model}
  {path name : String} {ids : List ObjectId}

/-- What a relation holds of related objects are some of these. -/
theorem held_heldFor {related : List (Value × ObjectId)} {key x : Value}
    (h : x ∈ (heldFor d related key).held) : ∃ e ∈ related, x = .object e.2 := by
  unfold heldFor at h
  dsimp only at h
  split at h
  · cases mine : (related.foldl (fun (m : Matches) e => m.add e.1 (.object e.2)) []).under key with
    | nil =>
      rw [mine] at h
      cases h
    | cons first rest =>
      obtain ⟨e, there, rfl⟩ := Matches.mem_of_mem_under (mine ▸ List.mem_cons_self (a := first) (l := rest))
      rw [mine] at h
      exact ⟨e, there, List.mem_singleton.mp h⟩
  · exact Matches.mem_of_mem_under h

/-- What comes of the rows of a query is of the model that it reads. -/
theorem model_of_keyed {q : Query} {l : Lookup} {column : Value} {row : Row} {made : Value × Entity}
    {related : Model} (reads : q.Reads related.source) (h : q.keyed l column row = .ok made) :
    ∃ m, l.catalog.model? related.id = some m ∧ made.2.model = m.id := by
  obtain ⟨split, -, h⟩ := ok_of_bind h
  obtain ⟨e, became, same⟩ := ok_of_bind h
  obtain rfl := Except.ok.inj same
  unfold Query.entity at became
  rw [reads] at became
  split at became
  · next m known =>
    obtain ⟨columns, -, hydrated⟩ := ok_of_bind became
    refine ⟨m, known, ?_⟩
    unfold Model.hydrate at hydrated
    dsimp only at hydrated
    split at hydrated
    · obtain rfl := Except.ok.inj hydrated
      rfl
    · cases hydrated
  · cases became

/-- The model that a reference leads to is one of the catalog. -/
theorem known_of_relatedModel {l : Lookup} (grounded : l.catalog.Grounded) {related : Model}
    (found : l.relatedModel d = .ok related) : l.catalog.model? related.id = some related := by
  unfold Lookup.relatedModel Lookup.target at found
  obtain ⟨v, -, found⟩ := ok_of_bind found
  split at found
  · cases found
  · unfold Lookup.asModel at found
    split at found
    · split at found
      · next known =>
        obtain rfl := Except.ok.inj found
        rw [grounded.numbered _ _ known]
        exact known
      · cases found
    · cases found

/-- What comes of the rows that are fetched for a relation is of the related model. -/
theorem model_of_chunk {env : Env} {q : Query} {keys : List Value} {column : Value} {row : Row}
    {made : Value × Entity} (grounded : env.catalog.Grounded)
    (built : loader.chunkQuery env d m path keys = .ok q)
    (same : q.keyed env.toLookup column row = .ok made) :
    ∃ related, env.relatedModel d = .ok related ∧ env.catalog.model? made.2.model = some related := by
  obtain ⟨related, found⟩ : ∃ related, env.relatedModel d = .ok related := by
    obtain ⟨_, queried, -⟩ := ok_of_bind built
    unfold Env.relationQuery at queried
    dsimp only at queried
    split at queried
    · cases queried
    · obtain ⟨related, found, -⟩ := ok_of_bind queried
      exact ⟨related, found⟩
  obtain ⟨m', known, model⟩ := model_of_keyed (reads_of_chunkQuery found built) same
  have own := known_of_relatedModel grounded found
  obtain rfl := Option.some.inj (known.symm.trans own)
  exact ⟨m', found, model ▸ own⟩

/-- Objects that were fetched for a relation are new, and of the related model. -/
theorem Batch.related {objects : List Value} {pages : List (Dialogue × List (Value × ObjectId))}
    (h : Batch loader d m path objects w t pages) (grows : w.Grows t) (grounded : w.catalog.Grounded) :
    ∀ e ∈ pages.flatMap (·.2), w.objects.size ≤ e.2 ∧
      ∃ related, w.relatedModel d = .ok related ∧ t.modelOfValue? (.object e.2) = some related := by
  obtain ⟨keys, pieces, -, -, each⟩ := h.pieces
  intro e there
  obtain ⟨page, hpage, own⟩ := List.mem_flatMap.mp there
  obtain ⟨piece, -, w', q, made, before, built, brings, chunk⟩ := exists_of_mem_right each hpage
  obtain ⟨row, hrow, new, -⟩ := exists_of_mem_right chunk own
  obtain ⟨_, _, rows, -, -, -, keyed⟩ := brings.asked
  obtain ⟨_, -, same⟩ := exists_of_mem_right keyed hrow
  have lookup := before.grows.lookup
  obtain ⟨related, found, known⟩ := model_of_chunk (by rw [lookup]; exact grounded) built same
  rw [lookup] at found known
  obtain ⟨e', stands, model', -⟩ := new.2
  refine ⟨new.1, related, found, Option.bind_eq_some_iff.mpr ⟨e', stands, ?_⟩⟩
  rw [Env.modelOf?, model', grows.lookup]
  exact known

theorem Visit.grows (h : Visit loader d m path name ids w t sent) : w.Grows t := by
  obtain ⟨w', pages, -, adds, between, -⟩ := h.batch
  exact (w.grows_begun ids name).trans (adds.grows.trans between)

theorem Visit.later {t' : World τ} (h : Visit loader d m path name ids w t sent) (grows : t.Grows t')
    (same : ∀ id ∈ ids, t'.valueOf id name = t.valueOf id name) :
    Visit loader d m path name ids w t' sent := by
  obtain ⟨w', pages, whole, adds, between, batch, held⟩ := h.batch
  refine ⟨w', pages, whole, adds, between.trans grows, batch.later grows, fun id there => ?_⟩
  rw [same id there]
  exact held id there

/-- What a visit sets leads to new objects of the related model. -/
theorem Visit.leads (h : Visit loader d m path name ids w t sent) (grounded : w.catalog.Grounded) :
    ∀ id ∈ ids, ∃ v, t.valueOf id name = some v ∧ ∀ x ∈ v.held, ∃ o, x = .object o ∧
      w.objects.size ≤ o ∧ ∃ related, w.relatedModel d = .ok related ∧
        t.modelOfValue? (.object o) = some related := by
  obtain ⟨w', pages, -, adds, between, batch, held⟩ := h.batch
  intro id there
  obtain ⟨key, -, value⟩ := held id there
  refine ⟨_, value, fun x hx => ?_⟩
  obtain ⟨e, own, rfl⟩ := held_heldFor hx
  have size : (begun w ids name).objects.size = w.objects.size := World.size_changed _ _
  have lookup : (begun w ids name).toLookup = w.toLookup := (World.grows_begun w ids name).lookup
  obtain ⟨new, related, found, model⟩ := batch.related (adds.grows.trans between)
    (by rw [lookup]; exact grounded) e own
  exact ⟨e.2, rfl, size ▸ new, related, lookup ▸ found, model⟩

/-- Following a relation that holds objects only. -/
theorem carries_children {r : Except Error (List Value)} {u : World τ}
    (holds : ∀ id ∈ ids, ∃ v, t.valueOf id name = some v ∧ ∀ x ∈ v.held, ∃ o, x = .object o)
    (carries : Carries (children (ids.map .object) name) t sent r u) :
    sent = [] ∧ r = .ok ((t.onward ids name).map .object) ∧ u = t := by
  have reads : ∀ ids : List ObjectId, (∀ id ∈ ids, ∃ v, t.valueOf id name = some v ∧
      ∀ x ∈ v.held, ∃ o, x = .object o) → ∃ values : List Value,
        Runs Eq ((ids.map Value.object).mapM fun o =>
          Act.getsExcept fun w : World τ => relationOf w.toEnv o name) t [] (.ok values) t ∧
        values.flatMap t.toEnv.heldBy = (t.onward ids name).map .object := by
    intro ids holds
    induction ids with
    | nil => exact ⟨[], .ofExcept (.ok []) t, rfl⟩
    | cons id rest ih =>
      obtain ⟨v, value, objects⟩ := holds id (.head _)
      obtain ⟨values, runs, whole⟩ := ih fun id there => holds id (.tail _ there)
      have first : relationOf t.toEnv (.object id) name = .ok v := by
        obtain ⟨e, there, own⟩ := Option.bind_eq_some_iff.mp value
        simp [relationOf, there, own]
      refine ⟨v :: values, ?_, ?_⟩
      · rw [List.map_cons, List.mapM_cons]
        have own : Runs Eq (Act.getsExcept fun w : World τ => relationOf w.toEnv (.object id) name) t []
            (.ok v) t := first ▸ .getsExcept _ t
        exact own.bind (runs.bind (.ofExcept (.ok (v :: values)) t))
      · have leads : v.leads.map Value.object = v.held := by
          unfold Value.leads
          clear value first
          revert objects
          generalize v.held = held
          intro objects
          induction held with
          | nil => rfl
          | cons x rest ih =>
            obtain ⟨o, rfl⟩ := objects x (.head _)
            simp [ih fun x there => objects x (.tail _ there)]
        rw [List.flatMap_cons, Env.heldBy_of_objects objects, whole, World.onward, World.onward,
          List.flatMap_cons, List.map_append, value]
        exact congrArg (· ++ _) leads.symm
  obtain ⟨values, runs, whole⟩ := reads ids holds
  refine carries.silent (whole ▸ ?_)
  exact runs.bind (Runs.bind (.getsExcept (fun w => .ok w.toEnv) t) (.ofExcept (.ok _) t))

end Loader

end Relata
