import Relata.Proofs.Loading.Nested
import Relata.Proofs.Loading.Related

/-!
Loading a relation on one object. Main statement: the load finds what satisfies the query for the rows
related to the object, row by row and in the order in which the database goes through them, and the object
comes to hold all of it, or the first one or nothing.
-/

namespace Relata

open Act (Runs Carries)
open Deed (Made)
open Sql (Candidate Clause Contents)

/-- What corresponds by two steps. -/
theorem forall₂_trans {α β γ : Type} {R : α → β → Prop} {S : β → γ → Prop} {xs : List α} {ys : List β}
    {zs : List γ} (h : List.Forall₂ R xs ys) (h' : List.Forall₂ S ys zs) :
    List.Forall₂ (fun x z => ∃ y, R x y ∧ S y z) xs zs := by
  induction h generalizing zs with
  | nil =>
    cases h'
    exact .nil
  | cons own _ ih =>
    cases h' with
    | cons own' rest => exact .cons ⟨_, own, own'⟩ (ih rest)

/-- What corresponds to one thing is one thing. -/
theorem eq_singleton_of_forall₂ {α β : Type} {R : α → β → Prop} {x : α} {ys : List β}
    (h : List.Forall₂ R [x] ys) : ∃ y, R x y ∧ ys = [y] := by
  obtain ⟨y, rest, own, none_, rfl⟩ := List.forall₂_cons_left_iff.mp h
  exact ⟨y, own, by rw [List.forall₂_nil_left_iff.mp none_]⟩

namespace Loader

variable {τ : Type} {w t : World τ} {sent : Dialogue} {depth : Nat} {self : Loader} {d : Descriptor}
  {m related : Model} {path name : String} {id : ObjectId} {key : Value}

/-- A key by itself is one piece, whatever the size of pieces that there may be. -/
theorem chunks_one {size : Value} {parts : List (List Value)} (size_ : ∀ n : Int, size = .int n → 0 ≤ n)
    (given : key.isNull = false) (cut : chunks size (distinctKeys [key]) = .ok parts) : parts = [[key]] := by
  have alone : distinctKeys [key] = [key] := by simp [distinctKeys, Value.distinct, given]
  have whole (more : Nat) : pieces more [key] = [[key]] := by simp [pieces]
  rw [alone] at cut
  unfold chunks at cut
  dsimp only at cut
  split at cut
  · split at cut
    · split at cut
      · cases cut
      · split at cut
        · next negative => omega
        · exact (Except.ok.inj cut).symm.trans (whole _)
    · cases cut
  · split at cut
    · cases cut
    · split at cut
      · next negative => exact absurd (size_ _ rfl) (by omega)
      · exact (Except.ok.inj cut).symm.trans (whole _)
  · cases cut

/-- What an object holds of others: all of them, or the first one or null. -/
def holding (d : Descriptor) (objects : List ObjectId) : Value :=
  if d.kind.isSingle then (objects.map Value.object).headD .null else .list (objects.map .object)

theorem heldFor_of_same {found : List (Value × ObjectId)} (hash : key.isKey = true)
    (same : ∀ p ∈ found, key.same p.1 = true) : heldFor d found key = holding d (found.map (·.2)) := by
  have all : found.filter (key.same ·.1) = found := List.filter_eq_self.mpr same
  have keys : ∀ p ∈ found, p.1.isKey = true := fun p there => Value.isKey_of_same hash (same p there)
  have under : (found.foldl (fun (m : Matches) p => m.add p.1 (.object p.2)) []).under key =
      (found.map (·.2)).map .object := by
    rw [Matches.under_foldl_add hash keys, all, List.map_map]
    rfl
  rw [heldFor, under]
  rfl

theorem bearer_of_same {found : List (Value × ObjectId)} (same : ∀ p ∈ found, key.same p.1 = true) :
    bearer found key = ((found.map (·.2)).map Value.object).headD .null := by
  cases found with
  | nil => rfl
  | cons p rest => simp [bearer, Value.lookup?, same p (.head _)]

theorem areKeys_of_carries {values : List Value} (carries : Carries (keysMustHash values) w sent (.ok ()) t) :
    w.areKeys values = true := by
  have hashes := Deed.carries_gets_bind carries
  by_contra other
  rw [if_pos (by simpa using other)] at hashes
  obtain ⟨-, absurd, -⟩ := hashes.silent (.ofExcept (.error .badType) w)
  cases absurd

/-- A fetch that ends well has taken the keys of the objects for keys. -/
theorem isKey_of_fetchRelated {objects values : List Value} {o : Value}
    (carries : Carries (fetchRelated (below depth) self d m path objects) w sent (.ok values) t)
    (there : o ∈ objects) (read : w.propertyOrNull o (Descriptor.written d.parentAttribute) = .ok key)
    (given : key.isNull = false) : key.isKey = true := by
  have made_reads : Made World.Grows (objects.mapM fun o =>
      Deed.propertyOrNull (τ := τ) o (Descriptor.written d.parentAttribute)) :=
    .mapM fun o => Deed.made_propertyOrNull _ _
  obtain ⟨_, _, keys, w₁, rfl, gets, -, hashes⟩ := made_reads.ok_of_bind carries
  obtain ⟨rfl, rfl, each⟩ := Deed.carries_reads gets.carries
  obtain ⟨_, _, _, _, rfl, hashed, -, -⟩ := (made_keysMustHash _).ok_of_bind hashes
  obtain ⟨key', listed, read'⟩ := exists_of_mem_right each.flip there
  obtain rfl := Except.ok.inj (read.symm.trans read')
  have all := Env.areKeys_iff.mp (areKeys_of_carries hashed.carries)
  exact Env.isKey_of_isKey (all key (List.mem_filter.mpr ⟨listed, by simp [given]⟩))

/-- The column that is taken off rows as they come to a load. -/
def takenOff (d : Descriptor) : Value := if d.kind = .morphTo then .null else taken d

/-- The key that a load finds an object by: one that was taken off its row, an attribute that it had, or its
identifier. -/
def ToldBy (d : Descriptor) (t : World τ) (made : Value × Entity) (found : Value × ObjectId) : Prop :=
  if d.kind = .morphTo then ReadOff (fun o w => w.requireProperty (.object o) "id") t made found
  else FoundBy d t made found

theorem ToldBy.later {t' : World τ} {made : Value × Entity} {found : Value × ObjectId}
    (h : ToldBy d t made found) (grows : t.Grows t') : ToldBy d t' made found := by
  unfold ToldBy at *
  split
  · next kind =>
    rw [if_pos kind] at h
    exact h.later grows
  · next kind =>
    rw [if_neg kind] at h
    exact h.later grows

/-- The page that a load fetches for a key: one statement, whatever is loaded with its rows, and new objects
made of these, each with the key that it is found by. -/
abbrev PageFor (self : Loader) (d : Descriptor) (m related : Model) (path : String) (key : Value) :
    World τ → World τ → Dialogue × List (Value × ObjectId) → Prop :=
  Page World.Grows (fun w => self.asking w.toEnv d m related path [key]) (takenOff d) (ToldBy d)

/-- What a fetch for one object comes to: a page, sent for among whatever else, and one value, which is what
the page holds, if all of it was found by keys like the one of the object. -/
def FetchedAlone (self : Loader) (d : Descriptor) (m related : Model) (path : String) (key : Value)
    (w t : World τ) (sent : Dialogue) (values : List Value) : Prop :=
  ∃ page v, values = [v] ∧ page.1 ⊆ sent ∧ PageFor self d m related path key w t page ∧
    ((∀ p ∈ page.2, key.same p.1 = true) → v = holding d (page.2.map (·.2)))

section

variable {values : List Value} (size : ∀ n : Int, self.chunkSize = .int n → 0 ≤ n)
  (leads : w.LeadsTo d id related) (bears : w.Bears id (Descriptor.written d.parentAttribute) key)
  (given_ : key.isNull = false)
include size bears given_

/-- Where the model is fixed, there is one piece of keys, and one page. -/
theorem runs_fetchRelated_one (fixed : d.kind ≠ .morphTo)
    (carries : Carries (fetchRelated (below depth) self d m path [.object id]) w sent (.ok values) t) :
    FetchedAlone self d m related path key w t sent values := by
  have hash := isKey_of_fetchRelated carries (.head _) (bears w (.refl w)) given_
  obtain ⟨pages, told, ⟨keys, parts, read, cut, each⟩, held, grows⟩ :=
    runs_fetchRelated_allowed World.latitude_grows
      (fun _ _ _ _ _ => .of_made fun _ _ _ => made_loadBelow _ _ _ _ _) carries
  obtain ⟨key', own, rfl⟩ := eq_singleton_of_forall₂ read
  obtain rfl := Except.ok.inj (own.symm.trans (bears w (.refl w)))
  obtain rfl := chunks_one size given_ cut
  obtain ⟨page, fetched, rfl⟩ := eq_singleton_of_forall₂ each
  obtain ⟨v, ⟨key, read', rfl⟩, rfl⟩ := eq_singleton_of_forall₂ held
  obtain rfl := Except.ok.inj (read'.symm.trans (bears t grows))
  refine ⟨page, _, rfl, ?_, ?_, fun same => ?_⟩
  · simp [told]
  · unfold PageFor takenOff ToldBy asking
    simpa only [if_neg fixed] using fetched
  · rw [List.flatMap_singleton]
    exact heldFor_of_same hash same

include leads in
/-- Where the tag of the object names the model, the object is filed under it alone. -/
theorem runs_fetchMorphTo_one (kind : d.kind = .morphTo)
    (carries : Carries (fetchMorphTo (below depth) self d path [.object id]) w sent (.ok values) t) :
    FetchedAlone self d m related path key w t sent values := by
  have single : d.kind.isSingle = true := by rw [kind]; rfl
  have written : d.parentAttribute = d.idColumn := by rw [Descriptor.parentAttribute, kind]
  rw [written] at bears
  obtain ⟨i, known, led⟩ := leads.targetFor kind path
  have carries : Carries (fetchMorphTo (below depth) self d path ([id].map .object)) w sent (.ok values) t :=
    carries
  obtain ⟨named, found, each, dispatch, rfl⟩ := runs_fetchMorphTo World.latitude_grows
    (fun _ _ _ _ _ _ _ _ _ keys q => nests_targets keys q _) carries
  obtain ⟨absurd, -⟩ | ⟨group, among, p, hp, pages, same, member, told, targets, w', key', before, -, read,
      value⟩ := dispatch.given_of_named each (.head _) led
  · cases absurd
  obtain rfl := Except.ok.inj (read.symm.trans (bears w' before))
  obtain ⟨f, own, rfl⟩ := eq_singleton_of_forall₂ each
  obtain rfl := Except.ok.inj (own.symm.trans led)
  obtain rfl : group = (.model i, [.object id]) := by simpa [filed, Matches.add] using among
  obtain ⟨m', w₁, ids, parts, known', before', reads, cut, pages_⟩ :=
    targets.before World.latitude_grows (w.grows_warned _)
  obtain rfl := Except.ok.inj (known'.symm.trans known)
  obtain ⟨key, own, rfl⟩ := eq_singleton_of_forall₂ reads
  obtain rfl := Except.ok.inj (own.symm.trans (bears w₁ before'))
  obtain rfl := chunks_one size given_ cut
  obtain ⟨page, fetched, rfl⟩ := eq_singleton_of_forall₂ pages_
  refine ⟨page, _, rfl, fun e there => ?_, ?_, fun same => ?_⟩
  · rw [dispatch.told]
    exact List.mem_flatMap.mpr ⟨p, hp, by simpa [told] using there⟩
  · unfold PageFor takenOff ToldBy asking
    simpa only [if_pos kind] using fetched
  · rw [value, List.flatMap_singleton, bearer_of_same same, holding, if_pos single]

include leads in
/-- Whatever the kind of the relation, a load on one object fetches one page. -/
theorem runs_fetching_one
    (carries : Carries (fetching (below depth) self d m path [.object id]) w sent (.ok values) t) :
    FetchedAlone self d m related path key w t sent values := by
  unfold fetching at carries
  by_cases kind : d.kind = .morphTo
  · rw [if_pos (by simp [kind])] at carries
    exact runs_fetchMorphTo_one size leads bears given_ kind carries
  · rw [if_neg (by simp [kind])] at carries
    exact runs_fetchRelated_one size bears given_ kind carries

end

/-- A load of one relation on one object that does not hold it, or is to hold it anew, comes down to the
fetch. -/
theorem carries_load_one {e : Entity} (segment : IsSegment name) (there : w.object? id = some e)
    (class_ : w.catalog.model? e.model = some m) (required : w.require m (.text name) = .ok d)
    (wanted : self.force = true ∨ e.isLoaded (.text name) = false)
    (carries : Carries (Loader.load self [.object id] [.text name]) w sent (.ok ()) t) :
    Carries (loadPending (below 399) self d m name (.text name) [.object id]) w sent (.ok ()) t := by
  have names : Names [name] := ⟨by simpa using segment.bare, by simpa using segment.single, by simp⟩
  have one : ∀ v ∈ [Value.object id], v.isNull = false ∧ classKey w.toEnv v = .model e.model := by
    simp [Value.isNull, classKey, there]
  have pending : (if self.force then [Value.object id]
      else [Value.object id].filter fun o => !w.isLoadedOn (.text name) o) = [.object id] := by
    obtain force | lacks := wanted
    · rw [if_pos force]
    · simp [Env.isLoadedOn, there, lacks]
  have first : described w.toEnv false (.object id) name = .ok (some (m, d)) := by
    have own : w.modelOfValue? (.object id) = some m := by
      simpa [Env.modelOfValue?, there, Env.modelOf?] using class_
    simp only [described, own, Bool.false_eq_true, if_false, required]
    rfl
  rw [load_eq] at carries
  have walks := carries.reads (reads_loadBelow names (List.cons_ne_nil _ _) one)
  rw [show ∀ f : String → Deed τ PUnit, [name].forM f = f name from fun _ => bind_pure_unit] at walks
  obtain ⟨_, _, found, w', rfl, loads, -, ends⟩ := (made_loadRelation _ _ _).ok_of_bind walks
  obtain ⟨rfl, -, rfl⟩ : _ = [] ∧ (Except.ok () : Except Error Unit) = .ok () ∧ _ = w' := by
    cases found <;> exact ends.silent (.ofExcept (.ok ()) w')
  obtain ⟨_, known, carries⟩ := Deed.carries_getsExcept_bind loads.carries
  obtain rfl := Except.ok.inj (known.symm.trans first)
  have carries := Deed.carries_gets_bind carries
  dsimp only at carries
  rw [pending] at carries
  have made : Made World.Grows (loadPending (τ := τ) (below 399) self d m name (.text name) [.object id]) :=
    (@Manner.Loads.loadPending _ _ 0 _ _ _ _ Deed.loads_making tends_making m name _ fun _ _ => trivial).1
  rw [if_pos (by simp), String.empty_append] at carries
  obtain ⟨_, _, _, w'', rfl, pends, -, ends⟩ := made.ok_of_bind carries
  obtain ⟨rfl, -, rfl⟩ := ends.silent (.ofExcept (.ok (some d)) w'')
  simpa using pends.carries

/-- What becomes of the statement of a query beside whatever else is sent. It is answered with what is shown of
the rows that satisfy it, in their order. Its objects are told by the value that their row has in the column
of the key, and there the database takes no value for the key that is not the same. -/
structure Faithful (contents : Contents) (shown : Candidate → Row → Prop) (d : Descriptor) (related : Model)
    (key : Value) (w : World τ) (sent : Dialogue) (q : Query) : Prop where
  answered : ∀ {f n rows}, q.statement.checked "get" = .ok f →
    w.runner q.select.source.connection = .ok n → (⟨n, f.text, f.values⟩, .ok rows) ∈ sent →
      List.Forall₂ shown (q.select.kept contents) rows
  kept : ∀ {column t row r made found}, w.Grows t → w.linkColumn d related = .ok column →
    row ∈ q.select.kept contents → shown row r → q.keyed w.toLookup (takenOff d) r = .ok made →
      ToldBy d t made found → row.value column = some found.1
  alike : ∀ {column row v}, w.linkColumn d related = .ok column → row ∈ q.select.kept contents →
    row.value column = some v → row.truth (.compare column "=" key) = .known true → key.same v = true

/-- A new object is made of what is shown of the row, and found by a key like that one. -/
def Matched (shown : Candidate → Row → Prop) (d : Descriptor) (key : Value) (q : Query) (w t : World τ)
    (row : Candidate) (o : ObjectId) : Prop :=
  ∃ r made k, shown row r ∧ q.keyed w.toLookup (takenOff d) r = .ok made ∧ w.Newly t made.2 o ∧
    ToldBy d t made (k, o) ∧ key.same k = true

/-- The page for a key holds what satisfies the statement, and is found by keys like this one. -/
theorem PageFor.matched {contents : Contents} {shown : Candidate → Row → Prop} {own : List Clause}
    {page : Dialogue × List (Value × ObjectId)} (coherent : contents.Coherent)
    (free : self.callbackFor path = .null)
    (leads : d.kind ≠ .morphTo → w.relatedModel d = .ok related)
    (recorded : ∀ w', w.Grows w' → w'.AddsOnly d.constraints related own)
    (faithful : ∀ w' q, w.Grows w' → self.asking w'.toEnv d m related path [key] = .ok q →
      Faithful contents shown d related key w sent q)
    (fetched : PageFor self d m related path key w t page) (grows : w.Grows t) (told : page.1 ⊆ sent) :
    ∃ w' q, w.Grows w' ∧ self.asking w'.toEnv d m related path [key] = .ok q ∧
      List.Forall₂ (Matched shown d key q w t) (q.select.kept contents) (page.2.map (·.2)) ∧
      ∀ p ∈ page.2, key.same p.1 = true := by
  obtain ⟨w', q, made, before, built, asks, stands⟩ := fetched
  obtain ⟨asked, later, same, -, ⟨f, n, rows, passed, runner, rfl, keyed⟩⟩ := asks
  have faithful := faithful w' q before built
  have runner' : w.runner q.select.source.connection = .ok n :=
    World.runner_of_connections before.connections.symm runner
  have sent_ : (⟨n, f.text, f.values⟩, .ok rows) ∈ page.1 := by simp [same]
  have answered := faithful.answered passed runner' (told sent_)
  obtain ⟨-, only_and, column, named, tested⟩ :=
    asking_links free (fun fixed => before.lookup ▸ leads fixed) (recorded w' before) built
  rw [before.lookup] at named keyed
  -- Each row that is kept has passed the test for the key.
  have passed {row : Candidate} (there : row ∈ q.select.kept contents) :
      row.truth (.compare column "=" key) = .known true := by
    obtain ⟨among, keeps⟩ := List.mem_filter.mp there
    rw [← coherent _ _ row among]
    exact Sql.Select.Keeps.of_leaf only_and keeps tested
  have each : List.Forall₂ (fun row p => row ∈ q.select.kept contents ∧ ∃ r made, shown row r ∧
      q.keyed w.toLookup (takenOff d) r = .ok made ∧ w.Newly t made.2 p.2 ∧ ToldBy d t made p)
      (q.select.kept contents) page.2 :=
    (List.forall₂_and_left _ _).mpr ⟨fun _ => id, (forall₂_trans answered (forall₂_trans keyed stands)).imp
      fun row p ⟨r, showing, made, own, new, by_⟩ => ⟨r, made, showing, own, new, by_⟩⟩
  have like {row p} (h : row ∈ q.select.kept contents ∧ ∃ r made, shown row r ∧
      q.keyed w.toLookup (takenOff d) r = .ok made ∧ w.Newly t made.2 p.2 ∧ ToldBy d t made p) :
      key.same p.1 = true := by
    obtain ⟨there, r, made, showing, own, -, by_⟩ := h
    exact faithful.alike named there (faithful.kept grows named there showing own by_) (passed there)
  refine ⟨w', q, before, built, List.forall₂_map_right_iff.mpr (each.imp fun row p h => ?_), fun p there => ?_⟩
  · have same := like h
    obtain ⟨-, r, made, showing, own, new, by_⟩ := h
    exact ⟨r, made, p.1, showing, own, new, by_, same⟩
  · obtain ⟨row, -, h⟩ := exists_of_mem_right each there
    exact like h

end Loader

open Loader (Faithful Matched holding asking)

variable {τ : Type} {w t : World τ} {sent : Dialogue} {self : Loader} {d : Descriptor} {m related : Model}
  {name : String} {id : ObjectId} {key : Value} {e : Entity} {own : List Clause} {contents : Contents}
  {shown : Candidate → Row → Prop}

/-- A query for what is related to one object agrees with a load of the relation on this object alone. Where
the load ends well without a callback, the query can be built, and whatever the tables hold, the rows that
satisfy its statement are, one by one and in this order, those of which the load makes the objects that it
matches to the object. The object comes to hold all of these, or the first one or null. This is so for
relations of every kind, if the calls recorded on them only add conditions joined by AND. -/
theorem related_agrees_with_load (segment : Loader.IsSegment name) (free : self.callbackFor name = .null)
    (size : ∀ n : Int, self.chunkSize = .int n → 0 ≤ n) (there : w.object? id = some e)
    (class_ : w.catalog.model? e.model = some m) (required : w.require m (.text name) = .ok d)
    (wanted : self.force = true ∨ e.isLoaded (.text name) = false) (leads : w.LeadsTo d id related)
    (bears : w.Bears id (Descriptor.written d.parentAttribute) key) (given_ : key.isNull = false)
    (recorded : ∀ w', w.Grows w' → w'.AddsOnly d.constraints related own)
    (runs : Runs Eq (Loader.load self [.object id] [.text name]) w sent (.ok ()) t)
    (coherent : contents.Coherent)
    (faithful : ∀ w' q, w.Grows w' → self.asking w'.toEnv d m related name [key] = .ok q →
      Faithful contents shown d related key w sent q) :
    ∃ p w' q objects, Deed.related w.toEnv id (.text name) = .ok (.other p) ∧ w.Grows w' ∧
      self.asking w'.toEnv d m related name [key] = .ok q ∧ p.Agrees q related.source ∧
      List.Forall₂ (Matched shown d key q w t) (p.select.kept contents) objects ∧
      t.valueOf id name = some (holding d objects) := by
  have pends : Carries (Loader.loadPending (Loader.below 399) self d m name (.text name) ([id].map .object)) w
    sent (.ok ()) t := Loader.carries_load_one segment there class_ required wanted runs.carries
  obtain ⟨first, last, outcome, w₁, rfl, fetched, grows, concludes⟩ := Loader.carries_loadPending pends
  cases outcome with
  | error e =>
    obtain ⟨-, absurd, -⟩ := concludes.silent (Loader.runs_abandon e w₁)
    cases absurd
  | ok values =>
    have begins : w.Grows (Loader.begun w [id] name) := w.grows_begun [id] name
    obtain ⟨page, v, rfl, told, pageFor, held⟩ := Loader.runs_fetching_one size (leads.later begins)
      (bears.later begins) given_ fetched.carries
    have present : ∀ o ∈ [id], o < w₁.objects.size := List.forall_mem_singleton.mpr
      ((World.holds_of_object? there).later (begins.trans grows)).lt_size
    obtain ⟨rfl, altered, set⟩ := Loader.concluded rfl present concludes
    obtain ⟨_, among, value⟩ := set id (.head _)
    obtain ⟨-, rfl⟩ := Prod.mk.inj (List.mem_singleton.mp among)
    -- The page as it stands between the beginning and the end of the load.
    have pageFor := (pageFor.before World.latitude_grows begins).later World.latitude_grows
      (·.later altered.grows) altered.grows
    have whole := (begins.trans grows).trans altered.grows
    have leads_ (fixed : d.kind ≠ .morphTo) : w.relatedModel d = .ok related := by
      rwa [World.LeadsTo, if_neg fixed] at leads
    obtain ⟨w', q, before, built, matched, like⟩ := Loader.PageFor.matched coherent free leads_ recorded
      faithful pageFor whole (List.subset_append_of_subset_left _ told)
    obtain ⟨p, related_, agrees⟩ := Deed.related_agrees there class_ required before free leads bears given_
      recorded built
    refine ⟨p, w', q, page.2.map (·.2), related_, before, built, agrees, ?_, ?_⟩
    · rw [agrees.kept contents coherent]
      exact matched
    · rw [value, held like]

/-- Posts whose replies are related only as far as they are open. -/
def moderatedPost : Model :=
  { plainPost with
    declared := [("replies", 0, ⟨.direct [("kind", .text "has_many"), ("model", .model 0),
      ("foreign_key", .text "parent"), ("local_key", .text "id")], [], none,
      [.mk "where" [.text "open", .int 1] []]⟩)] }

def openReplies : Descriptor :=
  { Loader.replyRelation with constraints := [.mk "where" [.text "open", .int 1] []] }

/-- A post of which nothing is loaded. -/
def moderatedWorld : World Unit where
  toEnv := { plainEnv with
    catalog := ⟨#[moderatedPost]⟩
    objects := #[Loader.storedPost (.int 1)]
    registries := #[.empty Registry.defaultLimit] }
  tagMaps := #[]
  connections := [("default", 0)]
  warnings := []
  rest := ()

/-- A reply with the post that it belongs to, open or not. -/
def replyRow (id parent isOpen : Int) : Row :=
  [("id", .int id), ("parent", .int parent), ("open", .int isOpen)]

/-- Two open replies to the first post, one that is not open, and one to another post. -/
def replyTable : List Row := [replyRow 10 1 1, replyRow 11 1 0, replyRow 12 2 1, replyRow 13 1 1]

/-- A row of which tests for one value are true or false. -/
def candidate (row : Row) : Candidate where
  value column := row.lookup column
  truth
    | .among false column [v] | .compare column _ v =>
      ((row.lookup column).map fun a => .known (v.same a)).getD .unknown
    | _ => .unknown

def replyContents : Contents := fun _ _ => replyTable.map candidate

theorem coherent_replyContents : replyContents.Coherent := fun _ _ row among column v => by
  obtain ⟨r, -, rfl⟩ := List.mem_map.mp among
  rfl

/-- The query by which the open replies are asked for. -/
def openReplyQuery : Query :=
  (Query.blank moderatedPost.source .null).adding
    [.leaf .and (.among false "parent" [.int 1]), .leaf .and (.compare "open" "=" (.int 1))]

theorem asking_openReplies {w : World Unit} (grows : moderatedWorld.Grows w) :
    Loader.replyLoader.asking w.toEnv openReplies moderatedPost moderatedPost "replies" [.int 1] =
      .ok openReplyQuery := by
  unfold asking Loader.chunkQuery Env.relationQuery
  rw [grows.lookup]
  rfl

/-- What is sent for the replies is answered with the open ones to the first post. -/
def openAnswers : Request → Except Error (List Row) := fun _ => .ok [replyRow 10 1 1, replyRow 13 1 1]

theorem kept_openReplyQuery : openReplyQuery.select.kept replyContents =
    [replyRow 10 1 1, replyRow 13 1 1].map candidate := by rfl

theorem faithful_openReplyQuery {sent : Dialogue} (obeys : Obeys openAnswers sent) :
    Faithful replyContents (fun row r => r ∈ replyTable ∧ row = candidate r) openReplies moderatedPost (.int 1)
      moderatedWorld sent openReplyQuery where
  answered {f n rows} _ _ there := by
    obtain rfl := Except.ok.inj (obeys _ there)
    rw [kept_openReplyQuery]
    simp [replyTable]
  kept {column t row r made found} grows named _ showing keyed told := by
    obtain rfl := Except.ok.inj named
    obtain ⟨there, rfl⟩ := showing
    obtain ⟨s, later, holds, read⟩ := told
    have lookup : s.toLookup = moderatedWorld.toLookup := later.lookup.symm.trans grows.lookup
    have plain : moderatedPost.Plain "parent" := ⟨by decide, by rfl⟩
    have known : s.catalog.model? 0 = some moderatedPost := by
      rw [lookup]
      rfl
    simp only [replyTable, List.mem_cons, List.not_mem_nil, or_false] at there
    rcases there with rfl | rfl | rfl | rfl <;>
    · obtain rfl := Except.ok.inj keyed
      exact congrArg some (Except.ok.inj ((holds.propertyOrNull known plain).symm.trans read))
  alike {column row v} _ among value true_ := by
    obtain ⟨r, -, rfl⟩ := List.mem_map.mp (kept_openReplyQuery ▸ among)
    change ((r.lookup column).map fun a => Sql.Truth.known (Value.same (.int 1) a)).getD .unknown = _ at true_
    rw [show r.lookup column = some v from value] at true_
    exact Sql.Truth.known.inj true_

/-- Of the replies to a post those that satisfy the query for its open replies are loaded with it. -/
theorem open_replies_agree :
    ∃ sent t, Runs Eq (Loader.load Loader.replyLoader [.object 0] [.text "replies"]) moderatedWorld sent
        (.ok ()) t ∧ Obeys openAnswers sent ∧
      moderatedWorld.require moderatedPost (.text "replies") = .ok openReplies ∧
      moderatedWorld.LeadsTo openReplies 0 moderatedPost ∧ moderatedWorld.Bears 0 "id" (.int 1) ∧
      ∃ p w' q objects, Deed.related moderatedWorld.toEnv 0 (.text "replies") = .ok (.other p) ∧
        moderatedWorld.Grows w' ∧
        Loader.replyLoader.asking w'.toEnv openReplies moderatedPost moderatedPost "replies" [.int 1] = .ok q ∧
        p.Agrees q moderatedPost.source ∧
        p.select.kept replyContents = [replyRow 10 1 1, replyRow 13 1 1].map candidate ∧
        List.Forall₂ (Matched (fun row r => r ∈ replyTable ∧ row = candidate r) openReplies (.int 1) q
          moderatedWorld t) (p.select.kept replyContents) objects ∧
        t.valueOf 0 "replies" = some (holding openReplies objects) := by
  obtain ⟨sent, runs, obeys⟩ := @Loader.runs_of_finish openAnswers _
    (Loader.made_load Loader.replyLoader [.object 0] [.text "replies"]) moderatedWorld (by decide +kernel)
  have leads : moderatedWorld.LeadsTo openReplies 0 moderatedPost := by
    rw [World.LeadsTo, if_neg (by decide)]
    rfl
  have bears : moderatedWorld.Bears 0 "id" (.int 1) :=
    World.bears_of_column (e := Loader.storedPost (.int 1)) (m := moderatedPost) rfl rfl ⟨by decide, by rfl⟩
  have recorded (w : World Unit) (_ : moderatedWorld.Grows w) :
      w.AddsOnly openReplies.constraints moderatedPost [.leaf .and (.compare "open" "=" (.int 1))] :=
    @Env.addsOnly_of_each _ _ _ (fun _ => [.leaf .and (.compare "open" "=" (.int 1))])
      (fun _ _ => List.forall_mem_singleton.mpr rfl) (List.forall_mem_singleton.mpr fun _ => rfl)
  obtain ⟨p, w', q, objects, related, grows, built, agrees, matched, value⟩ :=
    related_agrees_with_load ⟨by decide, by decide⟩ rfl (fun n same => by cases same; decide) rfl rfl (by rfl)
      (.inr rfl) leads bears rfl recorded runs coherent_replyContents fun w' q grows built => by
        obtain rfl := Except.ok.inj ((asking_openReplies grows).symm.trans built)
        exact faithful_openReplyQuery obeys
  have kept : p.select.kept replyContents = [replyRow 10 1 1, replyRow 13 1 1].map candidate := by
    obtain rfl := Except.ok.inj ((asking_openReplies grows).symm.trans built)
    rw [agrees.kept _ coherent_replyContents, kept_openReplyQuery]
  exact ⟨sent, _, runs, obeys, by rfl, leads, bears, p, w', q, objects, related, grows, built, agrees, kept,
    matched, value⟩

end Relata
