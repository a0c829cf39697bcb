import Relata.Proofs.Loading.Batched
import Relata.Proofs.Loading.Nested

/-!
Two loads of the same objects. If statements are answered alike, then what the one load finds down a path
and what the other one finds hold the same rows, object by object; so they send the same statements for
each relation that both come to. Paths with the same prefixes therefore send the same statements, in
whatever order they are given, and leave the same prefixes loaded.
-/

namespace Relata

open Act (Runs Carries)
open RelationPath (before Begins)

section

variable {α β γ : Type} {R : α → β → Prop} {S : α → γ → Prop} {xs : List α} {ys : List β} {zs : List γ}

theorem forall₂_mem (h : List.Forall₂ R xs ys) :
    List.Forall₂ (fun x y => x ∈ xs ∧ y ∈ ys ∧ R x y) xs ys := by
  induction h with
  | nil => exact .nil
  | cons here _ ih =>
    exact .cons ⟨.head _, .head _, here⟩
      (ih.imp fun _ _ ⟨left, right, own⟩ => ⟨.tail _ left, .tail _ right, own⟩)

theorem eq_nil_of_forall₂ (h : List.Forall₂ R xs ys) : xs = [] ↔ ys = [] := by
  cases h <;> simp

/-- What belongs to one item belongs together. -/
theorem forall₂_ends (h : List.Forall₂ R xs ys) (h' : List.Forall₂ S xs zs) :
    List.Forall₂ (fun y z => ∃ x, R x y ∧ S x z) ys zs := by
  induction h generalizing zs with
  | nil =>
    cases h'
    exact .nil
  | cons here _ ih =>
    cases h' with
    | cons here' rest => exact .cons ⟨_, here, here'⟩ (ih rest)

end

namespace Matches

variable {R : Value → Value → Prop} {m m' : Matches}

/-- Related values are filed under the same keys. -/
def Alike (R : Value → Value → Prop) : Matches → Matches → Prop :=
  List.Forall₂ fun e e' => e.1 = e'.1 ∧ List.Forall₂ R e.2 e'.2

theorem Alike.any (h : Alike R m m') (p : Value → Bool) :
    (m.any fun e => p e.1) = m'.any fun e => p e.1 := by
  induction h with
  | nil => rfl
  | cons here _ ih => rw [List.any_cons, List.any_cons, ih, here.1]

theorem Alike.add (h : Alike R m m') (key : Value) {v v' : Value} (own : R v v') :
    Alike R (m.add key v) (m'.add key v') := by
  unfold Matches.add
  rw [h.any (key.same ·)]
  split
  · refine List.rel_map (fun e e' here => ?_) h
    rw [here.1]
    split
    · exact ⟨rfl, List.rel_append here.2 (.cons own .nil)⟩
    · exact here
  · exact List.rel_append h (.cons ⟨rfl, .cons own .nil⟩ .nil)

theorem Alike.under (h : Alike R m m') (key : Value) : List.Forall₂ R (m.under key) (m'.under key) := by
  unfold Matches.under
  induction h with
  | nil => exact .nil
  | cons here _ ih =>
    unfold Value.lookup?
    rw [here.1]
    split
    · exact here.2
    · exact ih

end Matches

namespace World

variable {τ : Type} {u w w' t t' : World τ} {o o' : ObjectId}

/-- Objects of two worlds that were made alike: of one class, with the same columns. -/
def Twins (t t' : World τ) (o o' : ObjectId) : Prop := ∃ e, t.Holds o e ∧ t'.Holds o' e

theorem modelOfValue?_of_holds {e : Entity} (h : w.Holds o e) :
    w.modelOfValue? (.object o) = w.catalog.model? e.model := by
  obtain ⟨e', there, model, -⟩ := h
  rw [Env.modelOfValue?, there, ← model]
  rfl

theorem Twins.model {m : Model} (h : Twins t t' o o') (same : t'.toLookup = t.toLookup)
    (own : t.modelOfValue? (.object o) = some m) : t'.modelOfValue? (.object o') = some m := by
  obtain ⟨e, holds, holds'⟩ := h
  rw [modelOfValue?_of_holds holds', same, ← modelOfValue?_of_holds holds, own]

/-- Columns are read off an object before it is later known what it was made as. -/
theorem Grows.column {e : Entity} {m : Model} {name : String} (grows : w.Grows t)
    (model : w.modelOfValue? (.object o) = some m) (holds : t.Holds o e) (plain : m.Plain name) :
    w.propertyOrNull (.object o) name = .ok (e.column name) := by
  obtain ⟨e₀, there, known⟩ := Option.bind_eq_some_iff.mp model
  obtain ⟨e₁, later, model', fields, extra⟩ := grows.object there
  obtain ⟨e₂, same, own⟩ := holds
  obtain rfl := Option.some.inj (later.symm.trans same)
  have made : w.Holds o e :=
    ⟨e₀, there, model'.symm.trans own.1, fields.symm.trans own.2.1, extra.symm.trans own.2.2⟩
  exact made.propertyOrNull ((modelOfValue?_of_holds made).symm.trans model) plain

theorem runner_unique (same : w'.connections = w.connections) {connection : Value} {n n' : Nat}
    (h : w.runner connection = .ok n) (h' : w'.runner connection = .ok n') : n' = n :=
  Except.ok.inj (h'.symm.trans (runner_of_connections same h))

end World

open World (Twins)

namespace Loader

variable {τ : Type} {loader : Loader} {d : Descriptor} {m : Model} {path name : String}
  {u w w' t t' : World τ} {ids ids' : List ObjectId} {answers : Request → Except Error (List Row)}

/-- The keys of a relation are columns. -/
structure Keyed (l : Lookup) (d : Descriptor) (m : Model) : Prop where
  parent : m.Plain (Descriptor.written d.parentAttribute)
  related : ∀ related, l.relatedModel d = .ok related → ∀ column, d.relatedColumn = some column →
    related.Plain column

/-- The queries for a relation do not depend on what has been loaded. -/
def Steady (loader : Loader) (l : Lookup) (d : Descriptor) (m : Model) (path : String) : Prop :=
  ∀ env env' : Env, env.toLookup = l → env'.toLookup = l → ∀ keys,
    loader.chunkQuery env' d m path keys = loader.chunkQuery env d m path keys

/-- Objects of two worlds that were found by the same key. -/
def TwinsBy (t t' : World τ) (p p' : Value × ObjectId) : Prop := p.1 = p'.1 ∧ Twins t t' p.2 p'.2

/-- What is found alike is handed out alike. -/
theorem leads_heldFor {related related' : List (Value × ObjectId)}
    (h : List.Forall₂ (TwinsBy t t') related related') (key : Value) :
    List.Forall₂ (Twins t t') (heldFor d related key).leads (heldFor d related' key).leads := by
  let R (x x' : Value) : Prop := ∃ o o', x = .object o ∧ x' = .object o' ∧ Twins t t' o o'
  have filed : Matches.Alike R
      (related.foldl (fun (m : Matches) (e : Value × ObjectId) => m.add e.1 (.object e.2)) [])
      (related'.foldl (fun (m : Matches) (e : Value × ObjectId) => m.add e.1 (.object e.2)) []) := by
    refine List.rel_foldl (fun _ _ before p p' own => ?_) .nil h
    rw [own.1]
    exact before.add _ ⟨p.2, p'.2, rfl, rfl, own.2⟩
  have leads {xs xs' : List Value} (h : List.Forall₂ R xs xs') :
      List.Forall₂ (Twins t t') (Value.list xs).leads (Value.list xs').leads := by
    refine List.rel_filterMap (fun x x' own => ?_) h
    obtain ⟨o, o', rfl, rfl, twins⟩ := own
    exact .some twins
  have handed {xs xs' : List Value} (h : List.Forall₂ R xs xs') : List.Forall₂ (Twins t t')
      (if d.kind.isSingle then xs.headD .null else .list xs).leads
      (if d.kind.isSingle then xs'.headD .null else .list xs').leads := by
    split
    · cases h with
      | nil => exact .nil
      | cons own _ =>
        obtain ⟨o, o', rfl, rfl, twins⟩ := own
        exact leads (.cons ⟨o, o', rfl, rfl, twins⟩ .nil)
    · exact leads h
  exact handed (filed.under key)

/-- A statement that is answered alike brings the same. -/
theorem brings_unique {q : Query} {column : Value} {sent sent' : Dialogue} {made made' : List (Value × Entity)}
    (h : q.Brings w column sent made) (h' : q.Brings w' column sent' made')
    (lookup : w'.toLookup = w.toLookup) (connections : w'.connections = w.connections)
    (obeys : Obeys answers sent) (obeys' : Obeys answers sent') : sent = sent' ∧ made = made' := by
  obtain ⟨f, n, rows, checked, runner, rfl, keyed⟩ := h.asked
  obtain ⟨f', n', rows', checked', runner', rfl, keyed'⟩ := h'.asked
  obtain rfl := Except.ok.inj (checked.symm.trans checked')
  obtain rfl := World.runner_unique connections runner runner'
  obtain rfl : rows = rows' := Except.ok.inj ((obeys _ (.head _)).trans (obeys' _ (.head _)).symm)
  rw [lookup] at keyed'
  exact ⟨rfl, List.right_unique_forall₂' (fun _ _ _ own own' => Except.ok.inj (own.symm.trans own'))
    keyed keyed'⟩

theorem keys_of_holds {es : List Entity} {keys : List Value} (grows : w.Grows t)
    (model : ∀ id ∈ ids, w.modelOfValue? (.object id) = some m) (plain : m.Plain name)
    (holds : List.Forall₂ t.Holds ids es) (read : List.Forall₂ (fun o key =>
      w.propertyOrNull o name = .ok key) (ids.map .object) keys) : keys = es.map (·.column name) := by
  have same : List.Forall₂ (· = ·) (es.map (·.column name)) keys := by
    refine List.forall₂_map_left_iff.mpr
      ((forall₂_ends (forall₂_mem holds) (List.forall₂_map_left_iff.mp read)).imp ?_)
    rintro e key ⟨id, ⟨there, -, own⟩, read⟩
    exact Except.ok.inj ((grows.column (model id there) own plain).symm.trans read)
  rw [List.forall₂_eq_eq_eq] at same
  exact same.symm

section Alike

/-! One relation, fetched in two worlds that both came of `u`. -/

variable (grounded : u.catalog.Grounded) (grows : u.Grows w) (grows' : u.Grows w')
  (keyed : Keyed u.toLookup d m)

include grounded grows keyed

/-- The key that an object is found by is one of the row that it was made of. -/
theorem key_of_chunk {q : Query} {keys : List Value} {row : Row} {made : Value × Entity} {column : Value}
    {found : Value × ObjectId} (built : loader.chunkQuery w.toEnv d m path keys = .ok q)
    (became : q.keyed w.toLookup column row = .ok made) (later : u.Grows t)
    (h : FoundBy d t made found) :
    found.1 = (d.relatedColumn.map fun name => made.2.column name).getD made.1 := by
  unfold FoundBy at h
  split at h
  · next none => rw [none, h]; rfl
  · next name matched =>
    obtain ⟨s, after, holds, read⟩ := h
    obtain ⟨related, leads, known⟩ := model_of_chunk (by rw [grows.lookup]; exact grounded) built became
    have plain := keyed.related related (grows.lookup ▸ leads) name matched
    have same : s.toLookup = w.toLookup :=
      after.lookup.symm.trans (later.lookup.trans grows.lookup.symm)
    rw [matched]
    exact Except.ok.inj (read.symm.trans (holds.propertyOrNull (by rw [same]; exact known) plain))

include grows'

theorem Batch.alike (steady : loader.Steady u.toLookup d m path)
    {pages pages' : List (Dialogue × List (Value × ObjectId))}
    (h : Batch loader d m path (ids.map .object) w t pages)
    (h' : Batch loader d m path (ids'.map .object) w' t' pages') (later : w.Grows t)
    (later' : w'.Grows t') (model : ∀ id ∈ ids, w.modelOfValue? (.object id) = some m)
    (model' : ∀ id ∈ ids', w'.modelOfValue? (.object id) = some m)
    (twins : List.Forall₂ (Twins t t') ids ids') (obeys : Obeys answers (pages.flatMap (·.1)))
    (obeys' : Obeys answers (pages'.flatMap (·.1))) :
    List.Forall₂ (fun page page' => page.1 = page'.1 ∧ List.Forall₂ (TwinsBy t t') page.2 page'.2)
      pages pages' := by
  obtain ⟨es, holds, holds'⟩ := exists_of_forall₂ twins
  obtain ⟨keys, pieces, read, cut, each⟩ := h.pieces
  obtain ⟨keys', pieces', read', cut', each'⟩ := h'.pieces
  obtain rfl : keys = keys' := (keys_of_holds later model keyed.parent holds read).trans
    (keys_of_holds later' model' keyed.parent holds'.flip read').symm
  obtain rfl : pieces = pieces' := Except.ok.inj (cut.symm.trans cut')
  refine (forall₂_ends (forall₂_mem each) (forall₂_mem each')).imp ?_
  rintro page page' ⟨piece, ⟨-, there, w₁, q, made, adds, built, brings, chunk⟩, -, there', w₁', q', made',
    adds', built', brings', chunk'⟩
  have before := grows.trans adds.grows
  have before' := grows'.trans adds'.grows
  have lookup : w₁'.toLookup = w₁.toLookup := before'.lookup.trans before.lookup.symm
  obtain rfl : q = q' := Except.ok.inj
    (built.symm.trans ((steady _ _ before'.lookup before.lookup piece).trans built'))
  obtain ⟨same, rfl⟩ := brings_unique brings brings' lookup
    (before'.connections.trans before.connections.symm)
    (fun p own => obeys p (List.mem_flatMap.mpr ⟨page, there, own⟩))
    fun p own => obeys' p (List.mem_flatMap.mpr ⟨page', there', own⟩)
  obtain ⟨_, _, rows, -, -, -, became⟩ := brings.asked
  refine ⟨same, (forall₂_ends (forall₂_mem chunk) chunk').imp ?_⟩
  rintro p p' ⟨e, ⟨there, -, new, found⟩, new', found'⟩
  obtain ⟨row, hrow, own⟩ := exists_of_mem_right became there
  have key := key_of_chunk grounded before keyed built own (grows.trans later) found
  have key' := key_of_chunk grounded before keyed built own (grows'.trans later') found'
  exact ⟨key.trans key'.symm, e.2, new.2, new'.2⟩

/-- The same relation, loaded on objects of one kind in both worlds. -/
theorem Visit.alike (steady : loader.Steady u.toLookup d m path) {sent sent' : Dialogue}
    (h : Visit loader d m path name ids w t sent) (h' : Visit loader d m path name ids' w' t' sent')
    (model : ∀ id ∈ ids, w.modelOfValue? (.object id) = some m)
    (model' : ∀ id ∈ ids', w'.modelOfValue? (.object id) = some m)
    (twins : List.Forall₂ (Twins t t') ids ids') (obeys : Obeys answers sent)
    (obeys' : Obeys answers sent') :
    sent = sent' ∧ List.Forall₂ (Twins t t') (t.onward ids name) (t'.onward ids' name) := by
  obtain ⟨v, pages, rfl, adds, between, batch, held⟩ := h.batch
  obtain ⟨v', pages', rfl, adds', between', batch', held'⟩ := h'.batch
  have begins : w.Grows (begun w ids name) := w.grows_begun ids name
  have begins' : w'.Grows (begun w' ids' name) := w'.grows_begun ids' name
  have alike := batch.alike grounded (grows.trans begins) (grows'.trans begins') keyed steady batch'
    (adds.grows.trans between) (adds'.grows.trans between')
    (fun id there => begins.modelOfValue? (model id there))
    (fun id there => begins'.modelOfValue? (model' id there)) twins obeys obeys'
  have found : List.Forall₂ (TwinsBy t t') (pages.flatMap (·.2)) (pages'.flatMap (·.2)) :=
    List.rel_flatMap alike fun _ _ own => own.2
  have statements : List.Forall₂ (· = ·) (pages.flatMap (·.1)) (pages'.flatMap (·.1)) :=
    List.rel_flatMap alike fun _ _ own => by rw [List.forall₂_eq_eq_eq]; exact own.1
  rw [List.forall₂_eq_eq_eq] at statements
  refine ⟨statements, List.rel_flatMap (forall₂_mem twins) fun id id' ⟨there, there', e, holds, holds'⟩ => ?_⟩
  obtain ⟨key, read, value⟩ := held id there
  obtain ⟨key', read', value'⟩ := held' id' there'
  have same := between.column ((begins.trans adds.grows).modelOfValue? (model id there)) holds keyed.parent
  have same' := between'.column ((begins'.trans adds'.grows).modelOfValue? (model' id' there')) holds'
    keyed.parent
  obtain rfl : key = key' := (Except.ok.inj (read.symm.trans same)).trans
    (Except.ok.inj (read'.symm.trans same')).symm
  rw [value, value']
  exact leads_heldFor found key

end Alike

/-- The relations down a path have columns as keys, and queries that do not depend on what has been
loaded. -/
def Settled (loader : Loader) (l : Lookup) : List String → Model → List String → Prop :=
  Along l fun above m name d => Keyed l d m ∧ loader.Steady l d m (before above ++ name)

/-- Two loaders put the same queries for the relation at a path, for as many keys in each. -/
structure Agrees (loader loader' : Loader) (path : String) : Prop where
  size : loader'.chunkSize = loader.chunkSize
  query : ∀ env d m keys, loader'.chunkQuery env d m path keys = loader.chunkQuery env d m path keys

theorem Agrees.refl (loader : Loader) (path : String) : Agrees loader loader path :=
  ⟨rfl, fun _ _ _ _ => rfl⟩

theorem Visit.congr {loader' : Loader} {sent : Dialogue} (agrees : Agrees loader loader' path)
    (h : Visit loader' d m path name ids w t sent) : Visit loader d m path name ids w t sent := by
  obtain ⟨v, pages, whole, adds, between, ⟨keys, pieces, read, cut, each⟩, held⟩ := h.batch
  simp only [agrees.size, agrees.query] at cut each
  exact ⟨v, pages, whole, adds, between, ⟨keys, pieces, read, cut, each⟩, held⟩

/-- The relation is wanted of both loaders, which agree in its queries. -/
structure Shared (loader loader' : Loader) (wanted wanted' : List String → Prop) (q : List String)
    (name : String) : Prop where
  one : wanted (q ++ [name])
  other : wanted' (q ++ [name])
  agrees : Agrees loader loader' (before q ++ name)

section Tours

/-! Two tours that begin with the same objects, and came to their ends. -/

variable {loader' : Loader} {xs : List ObjectId} {wanted wanted' : List String → Prop}
  {stops stops' : List Stop} (grounded : w.catalog.Grounded)
  (h : Tour loader [] xs wanted w t stops True) (h' : Tour loader' [] xs wanted' w t' stops' True)
  (obeys : ∀ s ∈ stops, Obeys answers s.sent) (obeys' : ∀ s ∈ stops', Obeys answers s.sent)
include grounded h h' obeys obeys'

theorem stops_alike {q rest : List String} {s s' : Stop} (there : s ∈ stops) (there' : s' ∈ stops')
    (path : s.path = q ++ [name]) (path' : s'.path = q ++ [name])
    (twins : List.Forall₂ (Twins t t') (t.level xs q) (t'.level xs q))
    (model : ∀ o ∈ t.level xs q, t.modelOfValue? (.object o) = some m)
    (settled : loader.Settled w.toLookup q m (name :: rest))
    (agrees : Agrees loader loader' (before q ++ name)) :
    s.sent = s'.sent ∧
      List.Forall₂ (Twins t t') (t.level xs (q ++ [name])) (t'.level xs (q ++ [name])) ∧
      (t.level xs (q ++ [name]) ≠ [] → ∃ related, loader.Settled w.toLookup (q ++ [name]) related rest ∧
        ∀ o ∈ t.level xs (q ++ [name]), t.modelOfValue? (.object o) = some related) := by
  have read {loader : Loader} {wanted : List String → Prop} {t : World τ} {stops : List Stop}
      (h : Tour loader [] xs wanted w t stops True) {s : Stop} (there : s ∈ stops)
      (path : s.path = q ++ [name])
      (model : ∀ o ∈ t.level xs q, t.modelOfValue? (.object o) = some m) : ∃ d w', w.Grows w' ∧
        w.require m (.text name) = .ok d ∧ t.level xs q ≠ [] ∧
        (∀ o ∈ t.level xs q, w'.modelOfValue? (.object o) = some m) ∧
        Visit loader d m (before q ++ name) name (t.level xs q) w' t s.sent := by
    obtain ⟨objects, some_⟩ := h.level s there
    obtain ⟨q₁, name₁, d, m₁, w', split, grows, found, own, visit⟩ := h.supplied s there (.inl trivial)
    obtain ⟨rfl, same⟩ := List.append_inj' (path.symm.trans split) rfl
    obtain rfl : name = name₁ := (List.cons.inj same).1
    rw [path, List.dropLast_concat] at objects
    rw [objects] at some_ own visit
    obtain ⟨o, first⟩ := List.exists_mem_of_ne_nil _ some_
    obtain rfl : m₁ = m := Option.some.inj
      ((visit.grows.modelOfValue? (own o first)).symm.trans (model o first))
    exact ⟨d, w', grows, found, some_, own, visit⟩
  have model' : ∀ o ∈ t'.level xs q, t'.modelOfValue? (.object o) = some m := fun o' there => by
    obtain ⟨o, own, twin⟩ := exists_of_mem_right twins there
    exact twin.model (h'.grows.lookup.trans h.grows.lookup.symm) (model o own)
  obtain ⟨d, w₁, grows, found, some_, own, visit⟩ := read h there path model
  obtain ⟨d', w₁', grows', found', -, own', visit'⟩ := read h' there' path' model'
  obtain rfl := Except.ok.inj (found.symm.trans found')
  obtain ⟨⟨keyed, steady⟩, onward⟩ := settled d found
  have level (t : World τ) : t.level xs (q ++ [name]) = t.onward (t.level xs q) name := by
    rw [World.level_append]
    rfl
  obtain ⟨sent, next⟩ := visit.alike grounded grows grows' keyed steady (visit'.congr agrees) own own' twins
    (obeys s there) (obeys' s' there')
  rw [level, level]
  refine ⟨sent, next, fun leads => ?_⟩
  have each : ∀ o ∈ t.onward (t.level xs q) name, ∃ related, w.relatedModel d = .ok related ∧
      t.modelOfValue? (.object o) = some related := fun o there => by
    obtain ⟨id, parent, x, value, among⟩ := World.mem_onward.mp there
    obtain ⟨y, value', objects⟩ := visit.leads (by rw [grows.lookup]; exact grounded) id parent
    obtain rfl := Option.some.inj (value.symm.trans value')
    obtain ⟨_, same, -, related⟩ := objects _ (Value.mem_leads.mp among)
    obtain rfl := Value.object.inj same
    exact grows.lookup ▸ related
  obtain ⟨o, first⟩ := List.exists_mem_of_ne_nil _ leads
  obtain ⟨related, known, -⟩ := each o first
  refine ⟨related, onward related known, fun o there => ?_⟩
  obtain ⟨_, known', model⟩ := each o there
  rwa [Except.ok.inj (known.symm.trans known')]

/-- Down a path of which all prefixes are wanted of both, from a level on which both have found alike. -/
theorem levels_alike {rest : List String} : ∀ {q : List String} {m : Model},
    List.Forall₂ (Twins t t') (t.level xs q) (t'.level xs q) →
    (∀ o ∈ t.level xs q, t.modelOfValue? (.object o) = some m) →
    loader.Settled w.toLookup q m rest →
    (∀ p name, p ++ [name] <+: rest → Shared loader loader' wanted wanted' (q ++ p) name) →
      List.Forall₂ (Twins t t') (t.level xs (q ++ rest)) (t'.level xs (q ++ rest)) ∧
        ∀ s ∈ stops, ∀ s' ∈ stops', s.path = q ++ rest → s'.path = q ++ rest → rest ≠ [] →
          s.sent = s'.sent := by
  induction rest with
  | nil => exact fun twins _ _ _ => ⟨by simpa using twins, fun _ _ _ _ _ _ absurd => absurd.irrefl.elim⟩
  | cons name rest ih =>
    intro q m twins model settled shared
    rw [show q ++ name :: rest = q ++ [name] ++ rest by simp]
    have nothing {p r : List String} (twins : List.Forall₂ (Twins t t') (t.level xs p) (t'.level xs p))
        (none : t.level xs p = []) :
        List.Forall₂ (Twins t t') (t.level xs (p ++ r)) (t'.level xs (p ++ r)) := by
      rw [World.level_append, none, World.level_append, (eq_nil_of_forall₂ twins).mp none,
        World.level_nil, World.level_nil]
      exact .nil
    by_cases none : t.level xs q = []
    · -- There are no objects on this level, and so no stops behind it.
      rw [List.append_assoc]
      exact ⟨nothing twins none, fun s there _ _ path _ _ => absurd none (h.level_ne there path (by simp))⟩
    have here : Shared loader loader' wanted wanted' q name := by
      simpa using shared [] name (List.prefix_append [name] rest)
    have some_ : t.level xs (q ++ [name]).dropLast ≠ [] := by rwa [List.dropLast_concat]
    have some' : t'.level xs (q ++ [name]).dropLast ≠ [] := by
      rw [List.dropLast_concat]
      exact fun none' => none ((eq_nil_of_forall₂ twins).mpr none')
    obtain ⟨s, there, path⟩ := h.complete trivial _ here.one some_
    obtain ⟨s', there', path'⟩ := h'.complete trivial _ here.other some'
    have met {s s' : Stop} (there : s ∈ stops) (there' : s' ∈ stops') (path : s.path = q ++ [name])
        (path' : s'.path = q ++ [name]) :=
      stops_alike grounded h h' obeys obeys' there there' path path' twins model settled here.agrees
    obtain ⟨-, next, leads⟩ := met there there' path path'
    obtain ⟨below, sent⟩ : List.Forall₂ (Twins t t') (t.level xs (q ++ [name] ++ rest))
        (t'.level xs (q ++ [name] ++ rest)) ∧ (rest ≠ [] → ∀ s ∈ stops, ∀ s' ∈ stops',
          s.path = q ++ [name] ++ rest → s'.path = q ++ [name] ++ rest → s.sent = s'.sent) := by
      by_cases ends : t.level xs (q ++ [name]) = []
      · exact ⟨nothing next ends,
          fun more s there _ _ path _ => absurd ends (h.level_ne there path more)⟩
      · obtain ⟨related, settled, model⟩ := leads ends
        obtain ⟨below, sent⟩ := ih next model settled fun p last part => by
          rw [List.append_assoc]
          exact shared _ last (by simpa using part)
        exact ⟨below, fun more s there s' there' path path' => sent s there s' there' path path' more⟩
    refine ⟨below, fun s there s' there' path path' _ => ?_⟩
    by_cases last : rest = []
    · rw [last, List.append_nil] at path path'
      exact (met there there' path path').1
    · exact sent last s there s' there' path path'

end Tours

/-- Two tours of the same paths from the same world, that both came to their ends. -/
theorem tours_alike {xs : List ObjectId} {paths : List String} {stops stops' : List Stop}
    (ready : Ready loader [] xs m paths w)
    (settled : ∀ path ∈ paths, loader.Settled w.toLookup [] m (RelationPath.steps path))
    (h : Tour loader [] xs (Begins paths) w t stops True)
    (h' : Tour loader [] xs (Begins paths) w t' stops' True)
    (obeys : Obeys answers (stops.flatMap (·.sent))) (obeys' : Obeys answers (stops'.flatMap (·.sent))) :
    (∀ p, Begins paths p → (t.Loaded xs p ↔ t'.Loaded xs p)) ∧
      (stops.flatMap (·.sent)).Perm (stops'.flatMap (·.sent)) := by
  have obeys : ∀ s ∈ stops, Obeys answers s.sent := fun s there p own =>
    obeys p (List.mem_flatMap.mpr ⟨s, there, own⟩)
  have obeys' : ∀ s ∈ stops', Obeys answers s.sent := fun s there p own =>
    obeys' p (List.mem_flatMap.mpr ⟨s, there, own⟩)
  have begun : List.Forall₂ (Twins t t') (t.level xs []) (t'.level xs []) :=
    List.forall₂_same.mpr fun id there => by
      obtain ⟨e, stands, -⟩ := Option.bind_eq_some_iff.mp (ready.model id there)
      have holds := World.holds_of_object? stands
      exact ⟨e, holds.later h.grows, holds.later h'.grows⟩
  have down {p q : List String} (want : Begins paths q) (part : p <+: q) :
      List.Forall₂ (Twins t t') (t.level xs p) (t'.level xs p) ∧ ∀ s ∈ stops, ∀ s' ∈ stops',
        s.path = p → s'.path = p → p ≠ [] → s.sent = s'.sent := by
    obtain ⟨-, path, there, inside⟩ := want
    exact levels_alike ready.grounded h h' obeys obeys' begun
      (fun o there => h.grows.modelOfValue? (ready.model o there))
      ((settled path there).of_start (part.trans inside)) fun p' last part' =>
        have begins : Begins paths (p' ++ [last]) :=
          ⟨by simp, path, there, part'.trans (part.trans inside)⟩
        ⟨begins, begins, .refl loader _⟩
  have above {p : List String} (want : Begins paths p) :
      t.level xs p.dropLast ≠ [] ↔ t'.level xs p.dropLast ≠ [] :=
    not_congr (eq_nil_of_forall₂ (down want p.dropLast_prefix).1)
  refine ⟨fun p want => ?_, ?_⟩
  · rw [h.loaded_iff trivial want, h'.loaded_iff trivial want]
    exact above want
  · let at_ (s : Stop) : List String × Dialogue := (s.path, s.sent)
    have same {s s' : Stop} (there : s ∈ stops) (there' : s' ∈ stops') (path : s.path = s'.path) :
        at_ s = at_ s' := by
      have want := h.among s there
      exact Prod.ext path ((down want List.prefix_rfl).2 s there s' there' rfl path.symm want.1)
    have perm : (stops.map at_).Perm (stops'.map at_) := by
      refine (List.perm_ext_iff_of_nodup (h.nodup at_ fun _ _ => congrArg Prod.fst)
        (h'.nodup at_ fun _ _ => congrArg Prod.fst)).mpr fun x => ⟨fun own => ?_, fun own => ?_⟩
      · obtain ⟨s, there, rfl⟩ := List.mem_map.mp own
        obtain ⟨level, some_⟩ := h.level s there
        have want := h.among s there
        obtain ⟨s', there', path⟩ := h'.complete trivial _ want ((above want).mp (level ▸ some_))
        exact List.mem_map.mpr ⟨s', there', (same there there' path.symm).symm⟩
      · obtain ⟨s', there', rfl⟩ := List.mem_map.mp own
        obtain ⟨level, some_⟩ := h'.level s' there'
        have want := h'.among s' there'
        obtain ⟨s, there, path⟩ := h.complete trivial _ want ((above want).mpr (level ▸ some_))
        exact List.mem_map.mpr ⟨s, there, same there there' path⟩
    simpa [at_, List.flatMap_map] using perm.flatMap_right Prod.snd

/-- Nested paths, loaded on objects of one class that hold none of their relations. However a load goes,
it comes past prefixes of the paths only, past none of them twice and past none after a longer one,
with one batch of statements for all objects that there are to load it on; and past all of them if it
comes to its end. So two loads of paths with the same prefixes, that are answered alike and come to
their ends, send the same statements, if not in the same order, and leave the same prefixes loaded. -/
theorem each_prefix_loaded_once {xs : List ObjectId} {paths : List String}
    (ready : Ready loader [] xs m paths w) :
    (∀ answers, ∃ sent r t, Runs Eq (load loader (xs.map .object) (paths.map .text)) w sent r t ∧
      Obeys answers sent) ∧
    (∀ sent r t, Runs Eq (load loader (xs.map .object) (paths.map .text)) w sent r t →
      ∃ stops, sent = stops.flatMap (·.sent) ∧
        Tour loader [] xs (Begins paths) w t stops (r = .ok ())) ∧
    ∀ others : List String, (∀ path ∈ others, ':' ∉ path.toList) →
      (∀ p, Begins others p ↔ Begins paths p) →
      (∀ path ∈ paths, loader.Settled w.toLookup [] m (RelationPath.steps path)) →
      ∀ answers sent sent' t t',
        Runs Eq (load loader (xs.map .object) (paths.map .text)) w sent (.ok ()) t →
        Runs Eq (load loader (xs.map .object) (others.map .text)) w sent' (.ok ()) t' →
        Obeys answers sent → Obeys answers sent' →
          (∀ p, Begins paths p → (t.Loaded xs p ↔ t'.Loaded xs p)) ∧ sent.Perm sent' := by
  have goes {paths : List String} (ready : Ready loader [] xs m paths w) {sent : Dialogue}
      {r : Except Error Unit} {t : World τ}
      (runs : Runs Eq (load loader (xs.map .object) (paths.map .text)) w sent r t) :
      ∃ stops, sent = stops.flatMap (·.sent) ∧
        Tour loader [] xs (Begins paths) w t stops (r = .ok ()) :=
    toured loader depthLimit ready runs.carries
  refine ⟨fun answers => ?_, fun sent r t runs => goes ready runs, ?_⟩
  · obtain ⟨sent, r, t, runs, -, obeys⟩ := (made_load (τ := τ) loader (xs.map .object)
      (paths.map .text)).runs (fun _ => Eq.refl _) answers w
    exact ⟨sent, r, t, runs, obeys⟩
  · intro others bare same settled answers sent sent' t t' runs runs' obeys obeys'
    have ready' : Ready loader [] xs m others w :=
      { ready with
        bare
        straight := fun path there => by
          have begins : Begins others (RelationPath.steps path) := ⟨by
            rw [RelationPath.steps_eq]; exact List.cons_ne_nil _ _, path, there, List.prefix_rfl⟩
          obtain ⟨-, own, hown, part⟩ := (same _).mp begins
          exact (ready.straight own hown).of_start part
        lack := fun id own name want => ready.lack id own name ((same _).mp want) }
    obtain ⟨stops, rfl, tour⟩ := goes ready runs
    obtain ⟨stops', rfl, tour'⟩ := goes ready' runs'
    rw [eq_true rfl] at tour tour'
    rw [show Begins others = Begins paths from funext fun p => propext (same p)] at tour'
    exact tours_alike ready settled tour tour' obeys obeys'

/-- There is a reply to the first post, and none to any other one. -/
def oneReply (r : Request) : Except Error (List Row) :=
  .ok (if r.params.any (·.same (.int 1)) then [[("id", .int 10), ("parent", .int 1)]] else [])

/-- Replies lead to posts again, as far as a path goes. -/
theorem along_replies {P : List String → Model → String → Descriptor → Prop}
    (h : ∀ above, P above Members.subjectPost "replies" repliesOfPosts) {p : List String}
    (only : ∀ name ∈ p, name = "replies") (above : List String) :
    Along Members.twoPosts.toLookup P above Members.subjectPost p := by
  induction p generalizing above with
  | nil => trivial
  | cons name rest ih =>
    obtain rfl := only name (.head _)
    intro d found
    obtain rfl : repliesOfPosts = d := Except.ok.inj found
    refine ⟨h above, fun related leads => ?_⟩
    obtain rfl : Members.subjectPost = related := Except.ok.inj leads
    exact ih (fun name there => only name (.tail _ there)) _

/-- A loader that was given neither restrictions nor refinements. -/
theorem unrefined_replies {loader : Loader} (columns : loader.columns = []) (callbacks : loader.callbacks = [])
    (path : String) : Unrefined loader repliesOfPosts path :=
  ⟨rfl, by rw [callbacks]; rfl, .inl (by rw [columnsFor, columns]; rfl)⟩

theorem flat_of_unrefined {loader : Loader} {path : String} (h : Unrefined loader repliesOfPosts path) :
    loader.Flat Members.twoPosts.toLookup repliesOfPosts Members.subjectPost path := by
  intro env same keys q built
  obtain ⟨related, base, found, queried, loads⟩ :=
    loads_of_unrefined (by rfl) (by rw [callbackFor, h.callback]; rfl) built
  rw [same] at found
  obtain rfl : Members.subjectPost = related := Except.ok.inj found
  obtain rfl := Except.ok.inj (queried.symm.trans (by rfl : _ = Except.ok _))
  rw [loads]
  rfl

theorem flat_replies (path : String) :
    oneByOne.Flat Members.twoPosts.toLookup repliesOfPosts Members.subjectPost path :=
  flat_of_unrefined (unrefined_replies rfl rfl path)

theorem settled_of_unrefined {loader : Loader} (h : ∀ path, Unrefined loader repliesOfPosts path)
    {p : List String} (only : ∀ name ∈ p, name = "replies") :
    loader.Settled Members.twoPosts.toLookup [] Members.subjectPost p := by
  refine along_replies (fun above => ⟨⟨⟨by decide, by rfl⟩, fun related leads column matched => ?_⟩,
    fun env env' same same' keys => ?_⟩) only []
  · obtain rfl : Members.subjectPost = related := Except.ok.inj leads
    obtain rfl : "parent" = column := Option.some.inj matched
    exact ⟨by decide, by rfl⟩
  · exact (h _).chunkQuery_congr (same'.trans same.symm) Members.subjectPost keys

theorem settled_replies {p : List String} (only : ∀ name ∈ p, name = "replies") :
    oneByOne.Settled Members.twoPosts.toLookup [] Members.subjectPost p :=
  settled_of_unrefined (unrefined_replies rfl rfl) only

theorem ready_replies {paths : List String} (bare : ∀ path ∈ paths, ':' ∉ path.toList)
    (only : ∀ path ∈ paths, ∀ name ∈ RelationPath.steps path, name = "replies") :
    Ready oneByOne [] [0, 1] Members.subjectPost paths Members.twoPosts where
  grounded := by
    have known : ∀ i m, Members.twoPosts.catalog.model? i = some m →
        i = 0 ∧ m = Members.subjectPost ∨ i = 1 ∧ m = Members.label := fun i m there => by
      match i with
      | 0 => exact .inl ⟨rfl, (Option.some.inj there).symm⟩
      | 1 => exact .inr ⟨rfl, (Option.some.inj there).symm⟩
      | _ + 2 => cases there
    constructor
    · intro i m there
      obtain ⟨rfl, rfl⟩ | ⟨rfl, rfl⟩ := known i m there <;> rfl
    · intro i m there
      obtain ⟨rfl, rfl⟩ | ⟨rfl, rfl⟩ := known i m there <;> exact ⟨.root, .head _, .inl rfl⟩
  model := List.forall_mem_cons.mpr ⟨rfl, List.forall_mem_singleton.mpr rfl⟩
  bare := bare
  straight path there :=
    along_replies (fun above => ⟨by decide, flat_replies _⟩) (only path there) []
  lack id own name _ := by
    unfold World.valueOf
    cases there : Members.twoPosts.object? id with
    | none => rfl
    | some e => simp [Entity.value?, Entity.slot?, Members.bare_twoPosts there, Value.lookup?]

/-- A load by itself comes to what a schedule makes of it, where its result can be shown. -/
theorem runs_shown {α : Type} {x : Deed Unit α} (answers : Request → Except Error (List Row))
    (made : Deed.Made World.Grows x) (w : World Unit) (shown : α → Value) :
    ∃ sent r, Runs Eq x w sent r (Act.leaves answers x w) ∧ Obeys answers sent ∧
      (Schedule.finish (((x >>= fun a => pure (shown a)) .done).answered
        fun r => Act.ofExcept (answers r)) w).1 = r.map shown := by
  obtain ⟨sent, r, t, runs, comes, obeys⟩ := made.runs (fun _ => Eq.refl _) answers w
  rw [comes.leaves]
  refine ⟨sent, r, runs, obeys, ?_⟩
  cases r with
  | error e => rw [(comes.bind_error (fun a => pure (shown a)) .done).finish]; rfl
  | ok a => rw [(comes.bind (.pure (shown a) t) .done).finish]; rfl

theorem runs_finish {α : Type} {x : Deed Unit α} (answers : Request → Except Error (List Row))
    (made : Deed.Made World.Grows x) (w : World Unit) :
    ∃ sent r, Runs Eq x w sent r (Act.leaves answers x w) ∧ Obeys answers sent ∧
      (Schedule.finish (((x >>= fun _ => pure Value.null) .done).answered
        fun r => Act.ofExcept (answers r)) w).1 = r.map fun _ => .null :=
  runs_shown answers made w fun _ => .null

/-- A load that ends well by itself. -/
theorem runs_of_finish {x : Deed Unit Unit} (made : Deed.Made World.Grows x) {w : World Unit}
    (told : (Schedule.finish (((x >>= fun _ => pure Value.null) .done).answered
      fun r => Act.ofExcept (answers r)) w).1.isOk = true) :
    ∃ sent, Runs Eq x w sent (.ok ()) (Act.leaves answers x w) ∧ Obeys answers sent := by
  obtain ⟨sent, r, runs, obeys, ends⟩ := runs_finish answers made w
  rw [ends] at told
  cases r with
  | error e => cases told
  | ok => exact ⟨sent, runs, obeys⟩

/-- Replies and replies to them, asked for in either order. -/
theorem replies_loaded_once :
    Ready oneByOne [] [0, 1] Members.subjectPost ["replies", "replies.replies"] Members.twoPosts ∧
      ∃ (stops : List Stop) (sent sent' : Dialogue) (t t' : World Unit),
        Runs Eq (load oneByOne ([0, 1].map .object) (["replies", "replies.replies"].map .text))
          Members.twoPosts sent (.ok ()) t ∧
        Runs Eq (load oneByOne ([0, 1].map .object) (["replies.replies", "replies"].map .text))
          Members.twoPosts sent' (.ok ()) t' ∧
        sent = stops.flatMap (·.sent) ∧
        Tour oneByOne [] [0, 1] (Begins ["replies", "replies.replies"]) Members.twoPosts t stops
          ((Except.ok () : Except Error Unit) = .ok ()) ∧
        (∀ p, Begins ["replies", "replies.replies"] p → (t.Loaded [0, 1] p ↔ t'.Loaded [0, 1] p)) ∧
        sent.Perm sent' := by
  have ready : Ready oneByOne [] [0, 1] Members.subjectPost ["replies", "replies.replies"]
      Members.twoPosts := ready_replies (by decide) (by decide +kernel)
  obtain ⟨-, tours, alike⟩ := each_prefix_loaded_once ready
  obtain ⟨sent, runs, obeys⟩ := @runs_of_finish oneReply _ (made_load oneByOne
    ([0, 1].map .object) (["replies", "replies.replies"].map .text)) Members.twoPosts (by decide +kernel)
  obtain ⟨sent', runs', obeys'⟩ := @runs_of_finish oneReply _ (made_load oneByOne
    ([0, 1].map .object) (["replies.replies", "replies"].map .text)) Members.twoPosts (by decide +kernel)
  obtain ⟨stops, same, tour⟩ := tours _ _ _ runs
  have settled : ∀ path ∈ ["replies", "replies.replies"],
      oneByOne.Settled Members.twoPosts.toLookup [] Members.subjectPost (RelationPath.steps path) :=
    fun path there => settled_replies (by revert path; decide +kernel)
  obtain ⟨loaded, perm⟩ := alike ["replies.replies", "replies"] (by decide) (by simp [Begins, or_comm])
    settled _ _ _ _ _ runs runs' obeys obeys'
  exact ⟨ready, stops, sent, sent', _, _, runs, runs', same, tour, loaded, perm⟩

/-- Posts whose replies are always loaded with their own replies. -/
def chainedPost : Model :=
  { plainPost with
    declared := [("replies", 0, ⟨.direct [("kind", .text "has_many"), ("model", .model 0),
      ("foreign_key", .text "parent"), ("local_key", .text "id")], [], none,
      [.mk "with_" [.text "replies"] []]⟩)] }

def onePost : World Unit where
  toEnv := { plainEnv with
    catalog := ⟨#[chainedPost]⟩
    objects := #[⟨0, [], [("id", .int 1)], [], none⟩]
    registries := #[.empty Registry.defaultLimit] }
  tagMaps := #[]
  connections := [("default", 0)]
  warnings := []
  rest := ()

/-- A relation whose own queries ask for relations is loaded deeper than the paths go. -/
theorem chained_replies_loaded_deeper :
    (∀ name, onePost.valueOf 0 name = none) ∧
    (∃ d, onePost.require chainedPost (.text "replies") = .ok d ∧ d.kind = .hasMany ∧
      onePost.relatedModel d = .ok chainedPost) ∧ chainedPost.defaultWith = [] ∧
    ∃ sent t, Runs Eq (load oneByOne ([0].map .object) (["replies"].map .text)) onePost sent (.ok ()) t ∧
      t.Loaded [0] ["replies", "replies"] ∧ ¬ Begins ["replies"] ["replies", "replies"] := by
  obtain ⟨sent, runs, -⟩ := @runs_of_finish oneReply _ (made_load oneByOne ([0].map .object)
    (["replies"].map .text)) onePost (by decide +kernel)
  have level : (Act.leaves oneReply (load oneByOne ([0].map .object) (["replies"].map .text))
      onePost).level [0] ["replies"] = [1] := by decide +kernel
  have held : ((Act.leaves oneReply (load oneByOne ([0].map .object) (["replies"].map .text))
      onePost).valueOf 1 "replies").isSome = true := by decide +kernel
  refine ⟨fun name => rfl, ⟨_, rfl, rfl, rfl⟩, rfl, sent, _, runs, ⟨?_, ?_⟩, ?_⟩
  · change World.level _ _ ["replies"] ≠ []
    rw [level]
    exact List.cons_ne_nil _ _
  · change ∀ id ∈ World.level _ _ ["replies"], _
    rw [level]
    exact List.forall_mem_singleton.mpr ⟨"replies", _, rfl, (Option.some_get held).symm⟩
  · rintro ⟨-, path, there, part⟩
    obtain rfl := List.mem_singleton.mp there
    revert part
    decide +kernel

end Loader

end Relata
