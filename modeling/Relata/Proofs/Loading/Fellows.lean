import Relata.Proofs.Loading.Once
import Relata.Proofs.Loading.Settling
import Relata.Proofs.Registry.Account

/-!
Calls to load relations for all, on objects that lack them: on the members of a collection, on an
object that is alone in its collection, or on copies of a row outside of collections. Calls for one
set of names share a load, which is carried out for the members, or for the object that the first
call is made on; copies take over from it what they lack.
-/

namespace Relata

open Act (Meets Ends)

/-- How objects belong together. -/
inductive Bond where
  | members (collection : CollectionId)
  | alone (collection : CollectionId)
  | copies (row : RowKey)

/-- Objects that calls are made on, and the names of the relations that the calls ask for. -/
structure Fellows (τ : Type) extends Scene τ where
  names : List String
  bond : Bond

namespace Fellows

variable {τ : Type} (g : Fellows τ)

/-- The key under which the names are loaded. -/
def key : Value := match g.bond with
  | .members c | .alone c => Flights.collectionKey c (ForAll.ordered g.names)
  | .copies row => Flights.rowKey row (ForAll.ordered g.names)

/-- The collection that the objects know. -/
def home : Option CollectionId := match g.bond with
  | .members c | .alone c => some c
  | .copies _ => none

/-- The objects that a call on one of them loads the names on. -/
def targets (self : ObjectId) : List ObjectId := match g.bond with
  | .members _ => g.objects
  | .alone _ | .copies _ => [self]

/-- The rows of the objects have an identifier, and are not marked with the names unless others may
mark them. -/
def Unmarked : Prop := ∀ row, g.IsRow row → row.id.isNull = false ∧
  (g.sole → ∀ name ∈ g.names, ¬ (g.marks g.start).Marked row (.text name))

/-- The objects are what their bond says. Of several the first one lacks the relations. -/
def Bonded : Prop := match g.bond with
  | .members c => g.start.collections[c]? = some g.objects ∧ 2 ≤ g.objects.length ∧
    ∀ first ∈ g.objects.head?, ∀ name ∈ g.names, g.Lacks first name
  | .alone c => g.start.collections[c]? = some g.objects ∧ g.objects.length = 1 ∧ g.Unmarked
  | .copies row => row.IsKey ∧ (∀ own, g.IsRow own → own.IsKey ∧ own.same row = true) ∧ g.Unmarked

/-- None of the objects carries any of the relations. -/
def Bare : Prop := ∀ id ∈ g.objects, ∀ name ∈ g.names, g.Lacks id name

/-- Objects of one class, as calls find them to begin with. -/
structure Stands : Prop where
  proper : g.Proper
  named : Loader.Names g.names
  class_ : ∃ m, ∀ id ∈ g.objects, ∀ e, g.start.object? id = some e → e.model = m
  home : ∀ id ∈ g.objects, ∀ e, g.start.object? id = some e → e.collection = g.home
  bonded : g.Bonded

/-- The names that a call asks for, read in a world. -/
structure Asks (c : ForAll) (w : World τ) (r : LoadRequest) (asked : List String) : Prop where
  request : Deed.request w.toEnv c.relations = .ok r
  paths : r.paths = asked.map .text
  perm : asked.Perm g.names
  flat : g.sole → g.Flat (.ofRequest r c.given false) asked

/-- No marks that others have made let a call end at once. Among several objects it looks at the first
one and not at marks; otherwise nobody else marks the rows, or they are not marked with all names. -/
def Fresh (w : World τ) : Prop := match g.bond with
  | .members _ => True
  | .alone _ | .copies _ =>
    g.sole ∨ ∀ row, g.IsRow row → ∃ name ∈ g.names, ¬ (g.marks w).Marked row (.text name)

/-- A call for the names on one of the objects. -/
structure Fits (c : ForAll) (w : World τ) : Prop where
  member : c.self ∈ g.objects
  fresh : g.Fresh w
  registry : Deed.registryId c.given = .ok g.registry
  asks : ∃ r asked, g.Asks c w r asked

/-- The same load of the names is in flight, or none. -/
def SameEntry (w w' : World τ) : Prop :=
  w'.inFlight? g.registry g.key = w.inFlight? g.registry g.key

/-- What others may do. -/
def Meanwhile (w w' : World τ) : Prop := g.Apart w w' ∧ g.SameEntry w w'

def sharing (runner : Request → Deed τ (List Row)) : Sharing τ ForAll where
  runner := runner
  registry := g.registry
  key := g.key
  call := ForAll.deed
  fits := g.Fits
  meanwhile := g.Meanwhile
  afterwards := g.Meanwhile

/-- Some names are loaded, and others are not. -/
structure Open (done : List String) (w : World τ) : Prop where
  kin : g.Kin (fun _ name => name ∈ done) (fun _ _ => False) (· ∈ done) w
  more : ∃ name ∈ g.names, name ∉ done

/-- What has been done is all that was asked for, or ends before a name that was to come. -/
def Outcome (on : List ObjectId) (done : List String) : Except Error Value → Prop
  | .ok v => v = .list (on.map .object) ∧ done.Perm g.names
  | .error _ => ∃ name after, (done ++ name :: after).Perm g.names

/-- What a load comes to that a call starts. -/
structure Came (first : ForAll) (outcome : Except Error Value) (w : World τ) : Prop where
  member : first.self ∈ g.objects
  done : ∃ done, g.Stage (g.targets first.self) done w ∧
    g.Outcome (g.targets first.self) done outcome

/-- Loading names for a call, with what follows: the objects are marked, and answered. -/
def marking (self : ObjectId) (asked : List String) (load : Deed τ Unit) : Deed τ Value := do
  load
  Deed.markObjects g.registry ((g.targets self).map .object) (asked.map fun name => .ok (.text name))
  return .list ((g.targets self).map .object)

/-- Each relation is fetched once, for all objects of the load. -/
def fetching (self : ObjectId) (asked : List String) (loader : Loader) : Deed τ Value :=
  g.marking self asked
    (asked.forM (Loader.fetchOnce Loader.nested loader ((g.targets self).map .object)))

/-- The value of a relation on an object. -/
def held (w : World τ) (id : ObjectId) (name : String) : Option Value :=
  (w.object? id).bind (·.value? (.text name))

/-- After the load has settled: what is done is loaded on the objects of the load, and a copy holds
what it held to begin with, or else what the object of the load holds. -/
structure Over (first : ForAll) (outcome : Except Error Value) (w : World τ) : Prop where
  member : first.self ∈ g.objects
  free : w.inFlight? g.registry g.key = some none
  done : ∃ done, g.Outcome (g.targets first.self) done outcome ∧
    g.Kin (fun id name => name ∈ g.names ∧ g.Lacks id name ∧ (g.Lacks first.self name → name ∈ done))
      (fun id name => id ∈ g.targets first.self ∧ name ∈ done) (· ∈ done) w
  agree : ∀ row, g.bond = .copies row → ∀ id ∈ g.objects, ∀ name ∈ g.names, ∀ v,
    held w id name = some v → held g.start id name = some v ∨ held w first.self name = some v

/-- What is done after the load has settled: objects other than those of the load may take over
relations that they lack. -/
structure After (first : ForAll) (w w' : World τ) : Prop where
  lookup : w'.toLookup = w.toLookup
  size : w.objects.size ≤ w'.objects.size
  collections : ∀ {id : CollectionId} {c : List ObjectId}, w.collections[id]? = some c →
    w'.collections[id]? = some c
  closed : g.Closed w → g.Closed w'
  registry : w.registries.size ≤ w'.registries.size
  limit : (g.marks w').limit = (g.marks w).limit
  marks : g.sole → ∀ row, g.IsRow row → ∀ name : String, (g.marks w').Marked row (.text name) →
    (g.marks w).Marked row (.text name)
  entry : g.SameEntry w w'
  targets : ∀ id ∈ g.objects, id ∈ g.targets first.self → w'.object? id = w.object? id
  objects : ∀ id ∈ g.objects, ∀ e, w.object? id = some e → ∃ e', w'.object? id = some e' ∧
    e'.model = e.model ∧ e'.fields = e.fields ∧ e'.extra = e.extra ∧
      e'.collection = e.collection ∧ ∀ name, e'.value? (.text name) = e.value? (.text name) ∨
        name ∈ g.names ∧ e.value? (.text name) = none ∧
          e'.value? (.text name) = held w first.self name

/-- How a call ends, told the outcome of the load. -/
def Served (c : ForAll) (r : Except Error Value) (w : World τ) : Except Error Value → Prop
  | .ok _ => r = .ok (.object c.self) ∧ c.self ∈ g.objects ∧
      ∀ name ∈ g.names, w.isLoadedOn (.text name) (.object c.self) = true
  | .error e => r = .error e

def terms (runner : Request → Deed τ (List Row)) : (g.sharing runner).Terms where
  guar _ := g.SameEntry
  begins := g.Stage [] []
  due c _ := c.self ∈ g.objects
  pending first w := (∃ done, g.Stage (g.targets first.self) done w ∧ ∃ name ∈ g.names, name ∉ done) ∧
    first.self ∈ g.objects
  known first c _ := first.self ∈ g.objects ∧ c.self ∈ g.objects
  ends := g.Came
  past := g.Over
  ready first c outcome w := c.self ∈ g.objects ∧ g.Over first outcome w
  served _ c outcome r w := g.Served c r w outcome
  after := g.After

variable {g} {w w' w'' : World τ} {c : ForAll} {r : LoadRequest} {asked done : List String}
  {runner : Request → Deed τ (List Row)}

theorem Outcome.mem {on : List ObjectId} {outcome : Except Error Value}
    (h : g.Outcome on done outcome) {name : String} (own : name ∈ done) : name ∈ g.names := by
  cases outcome with
  | ok v => exact h.2.mem_iff.mp own
  | error e =>
    obtain ⟨next, after, whole⟩ := h
    exact whole.mem_iff.mp (List.mem_append_left _ own)

theorem mem_of_mem_targets {self id : ObjectId} (member : self ∈ g.objects)
    (h : id ∈ g.targets self) : id ∈ g.objects := by
  unfold targets at h
  split at h
  · exact h
  · exact List.mem_singleton.mp h ▸ member
  · exact List.mem_singleton.mp h ▸ member

theorem mem_targets {self : ObjectId} (member : self ∈ g.objects) : self ∈ g.targets self := by
  unfold targets
  split
  · exact member
  · exact .head _
  · exact .head _

/-! Others, who leave the objects alone. -/

theorem SameEntry.of_flights (same : ∀ registry, w.SameFlights registry w') : g.SameEntry w w' :=
  congrArg (Option.map fun f : Flights => f.find? g.key) (same g.registry)

theorem Meanwhile.refl (w : World τ) : g.Meanwhile w w := ⟨.refl w, rfl⟩

theorem Meanwhile.trans (h : g.Meanwhile w w') (h' : g.Meanwhile w' w'') : g.Meanwhile w w'' :=
  ⟨h.1.trans h'.1, Eq.trans h'.2 h.2⟩

/-- Whoever asks the registry leaves the objects alone. -/
theorem meanwhile_of_consulted (h : Scene.Consulted g.registry w w') : g.Meanwhile w w' :=
  ⟨h.apart g.toScene rfl, .of_flights h.flights⟩

theorem lawful_pact (first : ForAll) : ((g.terms runner).pact first).Lawful where
  guar_refl _ := rfl
  guar_trans h h' := Eq.trans h' h
  rely_refl w := .refl w
  rely_trans h h' := h.trans h'
  waits_rely := fun ⟨⟨done, stage, more⟩, leads⟩ others => ⟨⟨done, stage.apart others.1, more⟩, leads⟩

/-! What a call finds, in a world where the objects are as they were. -/

/-- An object of a call, as it is found. -/
structure Found (g : Fellows τ) (id : ObjectId) (w : World τ) (own : Entity) : Prop where
  there : w.object? id = some own
  row : g.IsRow ⟨.model own.model, own.id⟩
  keyed : ∀ env : Env, env.key own.id = .ok own.id
  home : own.collection = g.home

theorem Stands.found (h : g.Stands) {may must : ObjectId → String → Prop} {marked : String → Prop}
    (kin : g.Kin may must marked w) {self : ObjectId} (member : self ∈ g.objects) :
    ∃ own, g.Found self w own := by
  obtain ⟨e, there, v, column, fixed⟩ := h.proper.objects self member
  obtain ⟨own, later, kind⟩ := kin.objects self member e there
  have same : e.id = v := by rw [Entity.id, column, Option.getD_some]
  refine ⟨own, later, ⟨self, member, e, there, by rw [kind.model, kind.id]⟩, fun env => ?_, ?_⟩
  · rw [kind.id, same]
    exact fixed env
  · rw [kind.collection]
    exact h.home self member e there

theorem Stands.collection (h : g.Stands) {may must : ObjectId → String → Prop}
    {marked : String → Prop} (kin : g.Kin may must marked w) {c : CollectionId}
    (own : g.home = some c) : w.collectionOf c = g.objects.map .object := by
  have there : w.collections[c]? = some g.objects := by
    have bonded := h.bonded
    unfold Bonded at bonded
    unfold Fellows.home at own
    split at own
    · next bond => rw [bond] at bonded; exact Option.some.inj own ▸ kin.collections bonded.1
    · next bond => rw [bond] at bonded; exact Option.some.inj own ▸ kin.collections bonded.1
    · cases own
  rw [Env.collectionOf, there, Option.getD_some]

/-- The objects that were fetched with one of them. -/
theorem Stands.members (h : g.Stands) {may must : ObjectId → String → Prop}
    {marked : String → Prop} (kin : g.Kin may must marked w) {own : Entity}
    (home : own.collection = g.home) : ForAll.members w own =
      match g.home with
      | some _ => g.objects.map .object
      | none => [] := by
  rw [ForAll.members, home]
  cases own : g.home with
  | none => rfl
  | some c => exact h.collection kin own

theorem Stands.targets (h : g.Stands) {may must : ObjectId → String → Prop}
    {marked : String → Prop} (kin : g.Kin may must marked w) (member : c.self ∈ g.objects)
    {own : Entity} (home : own.collection = g.home) :
    c.targets w own = (g.targets c.self).map .object := by
  have some_ : g.objects ≠ [] := List.ne_nil_of_mem member
  have bonded := h.bonded
  rw [ForAll.targets, h.members kin home]
  unfold Bonded at bonded
  unfold Fellows.home Fellows.targets
  split at bonded
  · simp [some_]
  · obtain ⟨-, one, -⟩ := bonded
    obtain ⟨only, objects⟩ := List.length_eq_one_iff.mp one
    rw [objects, List.mem_singleton] at member
    simp [objects, member]
  · simp

/-- While a relation is lacking, a call cannot know that all are loaded. -/
theorem Open.unknown (opened : g.Open done w) (h : g.Stands)
    (runner : Request → Deed τ (List Row)) (fits : g.Fits c w) (perm : asked.Perm g.names)
    {own : Entity} (found : g.Found c.self w own) : ∃ w', Scene.Consulted g.registry w w' ∧
      (Deed.knownOn own ((g.targets c.self).map .object) asked c.given).Glides runner w
        (.ok false) w' := by
  obtain ⟨name, hname, missing⟩ := opened.more
  have bonded := h.bonded
  have fresh := fits.fresh
  rw [Bonded] at bonded
  rw [Fresh] at fresh
  -- An object on its own is asked for in the registry; the first of several is looked at.
  have alone (unmarked : g.Unmarked) (fresh : g.sole ∨ ∀ row, g.IsRow row →
      ∃ name ∈ g.names, ¬ (g.marks w).Marked row (.text name)) :
      ∃ w', Scene.Consulted g.registry w w' ∧
      (Deed.knownOn own ([c.self].map .object) asked c.given).Glides runner w (.ok false) w' := by
    obtain ⟨some_, without⟩ := unmarked _ found.row
    obtain ⟨n, hn, lacks⟩ : ∃ n ∈ g.names,
        ¬ (g.marks w).Marked ⟨.model own.model, own.id⟩ (.text n) := by
      refine fresh.elim (fun sole => ⟨name, hname, fun marked => ?_⟩) fun lacks =>
        lacks _ found.row
      exact (opened.kin.marks sole _ found.row name marked).elim (without sole name hname) missing
    exact ⟨_, Scene.consulted_isLoaded w g.registry _ _, ForAll.glides_knownOn_alone fits.registry
      (found.keyed _) some_ ⟨n, perm.mem_iff.mpr hn, lacks⟩⟩
  rw [Fellows.targets]
  cases bond : g.bond with
  | members id =>
    rw [bond] at bonded
    obtain ⟨-, several, lacks⟩ := bonded
    match objects : g.objects, several with
    | first :: second :: rest, _ =>
      rw [objects] at lacks
      refine ⟨w, .refl _ w, ForAll.glides_knownOn own c.given
        ⟨name, perm.mem_iff.mpr hname, ?_⟩⟩
      have own : first ∈ g.objects := objects ▸ .head _
      exact (opened.kin.isLoadedOn_eq h.proper own missing).trans (lacks first rfl name hname)
  | alone id =>
    rw [bond] at bonded fresh
    exact alone bonded.2.2 fresh
  | copies row =>
    rw [bond] at bonded fresh
    exact alone bonded.2.2 fresh

/-- Equal rows have equal keys. -/
theorem twin_rowKey {a b : RowKey} (ha : a.IsKey) (hb : b.IsKey) (equal : a.same b = true)
    (paths : List String) : (Flights.rowKey a paths).Twin (Flights.rowKey b paths) := by
  have isKey {k : RowKey} (hash : k.value.isKey = true) : (Flights.rowKey k paths).isKey = true := by
    simpa [Flights.rowKey, RowKey.value, Value.isKey, Value.areKeys, Flights.areKeys_texts]
      using hash
  refine .of_same (isKey ha.hash) (isKey hb.hash) ?_
  simpa [Flights.rowKey, Value.same, Value.sameItems, Flights.same_texts, RowKey.same] using equal

theorem Stands.same_key (h : g.Stands) : g.key.same g.key = true := by
  have bonded := h.bonded
  unfold Bonded at bonded
  unfold Fellows.key
  split at bonded
  · exact Flights.same_collectionKey _ _
  · exact Flights.same_collectionKey _ _
  · obtain ⟨keyed, -⟩ := bonded
    exact (twin_rowKey keyed keyed keyed.self _).own

/-- Calls go by one key. -/
theorem Stands.glides_flightKey (h : g.Stands) (runner : Request → Deed τ (List Row))
    {may must : ObjectId → String → Prop}
    {marked : String → Prop} (kin : g.Kin may must marked w) (member : c.self ∈ g.objects)
    {own : Entity} (found : g.Found c.self w own) (paths : r.paths = asked.map .text)
    (perm : asked.Perm g.names) : ∃ k : Value, k.Twin g.key ∧ ∀ w',
      (Deed.flightKey own (ForAll.members w own) r.paths).Glides runner w' (.ok k) w' := by
  have shown : r.paths.map (·.shown) = asked := by
    rw [paths, List.map_map]
    exact List.map_id asked
  have ordered := ForAll.ordered_eq_of_perm perm
  have some_ : g.objects.map Value.object ≠ [] := by simpa using List.ne_nil_of_mem member
  have home := found.home
  have members := h.members kin found.home
  have bonded := h.bonded
  -- The members of a collection, however many, go by the collection.
  have together {id : CollectionId} (at_ : g.home = some id)
      (key : g.key = Flights.collectionKey id (ForAll.ordered g.names)) : ∃ k : Value,
        k.Twin g.key ∧ ∀ w', (Deed.flightKey own (ForAll.members w own) r.paths).Glides runner w'
          (.ok k) w' := by
    refine ⟨_, .refl h.same_key, fun w' => ?_⟩
    rw [at_] at home members
    rw [members, key, ← ordered, ← shown]
    exact ForAll.glides_flightKey home some_ r.paths
  cases bond : g.bond with
  | members id => exact @together id (by rw [Fellows.home, bond]) (by rw [Fellows.key, bond])
  | alone id => exact @together id (by rw [Fellows.home, bond]) (by rw [Fellows.key, bond])
  | copies row =>
    rw [Bonded, bond] at bonded
    obtain ⟨keyed, rows, -⟩ := bonded
    obtain ⟨own_, equal⟩ := rows _ found.row
    rw [Fellows.home, bond] at home
    rw [Fellows.key, bond]
    refine ⟨_, twin_rowKey own_ keyed equal _, fun w' => ?_⟩
    rw [← ordered, ← shown]
    exact ForAll.glides_flightKey_alone home _ (found.keyed _) r.paths

/-! What a load comes to that a call starts. -/

theorem Stands.undertaken (h : g.Stands) (runner : Request → Deed τ (List Row))
    (member : c.self ∈ g.objects) (given : Deed.registryId c.given = .ok g.registry) (asks : g.Asks c w r asked) :
    g.Undertaken ((g.terms runner).pact c) (g.targets c.self) asked (.ofRequest r c.given false) where
  proper := h.proper
  guar same := .of_flights same
  rely others := others.1
  waits stage more :=
    ⟨⟨_, stage, more.imp fun _ own => ⟨asks.perm.mem_iff.mp own.1, own.2⟩⟩, member⟩
  named := ⟨fun path there => h.named.bare path (asks.perm.mem_iff.mp there),
    fun path there => h.named.single path (asks.perm.mem_iff.mp there),
    asks.perm.nodup_iff.mpr h.named.once⟩
  some_ := List.ne_nil_of_mem (mem_targets member)
  among _ there := mem_of_mem_targets member there
  class_ := h.class_.imp fun _ one id there => one id (mem_of_mem_targets member there)
  kept := rfl
  given := given
  flat := asks.flat

/-- A load after whose names the objects are marked and answered comes through, or breaks off before
one of the names. -/
theorem Stands.meets_marking (h : g.Stands) (member : c.self ∈ g.objects)
    (given : Deed.registryId c.given = .ok g.registry) (asks : g.Asks c w r asked)
    {load other : Deed τ Unit} (meets : Meets ((g.terms runner).pact c) load other w'
      (Scene.Undertaken.Left g.toScene (g.targets c.self) asked)) :
    Meets ((g.terms runner).pact c) (g.marking c.self asked load) (g.marking c.self asked other) w'
      (g.Came c) := by
  refine Meets.bind meets (fun _ w₁ (stage : g.Stage _ asked w₁) => ?_) fun _ _ there => ?_
  · have undertaken := h.undertaken runner member given asks
    refine Meets.bind (undertaken.ends_markObjects stage undertaken.among fun _ there => there)
      (fun _ w₂ there => .pure ?_) fun _ _ absurd => nomatch absurd.1
    exact ⟨member, asked, there.2, rfl, asks.perm⟩
  · obtain ⟨before, name, after, whole, stage⟩ := there
    exact ⟨member, before, stage, name, after, whole ▸ asks.perm⟩

/-- The load of a call comes to its end. -/
theorem Stands.ends_loadTargets (h : g.Stands) (member : c.self ∈ g.objects)
    (given : Deed.registryId c.given = .ok g.registry) (asks : g.Asks c w r asked)
    (begins : g.Stage [] [] w') :
    Ends ((g.terms runner).pact c) (Deed.loadTargets r c.given g.registry
      ((g.targets c.self).map .object) asked) w' (g.Came c) := by
  have undertaken := h.undertaken runner member given asks
  rw [Deed.loadTargets, asks.paths]
  exact h.meets_marking member given asks (undertaken.ends_load (Scene.stage_none begins _))

/-- The load of a call on objects that lack the relations goes the same way as fetching each of them
once. -/
theorem Stands.meets_loadTargets (h : g.Stands) (bare : g.Bare) (member : c.self ∈ g.objects)
    (given : Deed.registryId c.given = .ok g.registry) (asks : g.Asks c w r asked)
    (begins : g.Stage [] [] w') :
    Meets ((g.terms runner).pact c) (Deed.loadTargets r c.given g.registry
      ((g.targets c.self).map .object) asked)
      (g.fetching c.self asked (.ofRequest r c.given false)) w' (g.Came c) := by
  have undertaken := h.undertaken runner member given asks
  rw [Deed.loadTargets, asks.paths]
  refine h.meets_marking member given asks (undertaken.meets_load (fun id own name there => ?_)
    (Scene.stage_none begins _))
  exact bare id (undertaken.among id own) name (asks.perm.mem_iff.mp there)

/-! What a copy takes over. -/

/-- One relation is taken over from what another object holds, if it is lacking. -/
def takeOver (there : String → Option Value) (e : Entity) (name : String) : Entity :=
  match there name with
  | some v => if e.isLoaded (.text name) then e else e.setRelation (.text name) v
  | none => e

/-- An object after it has taken over some of the relations that another one holds. -/
structure Took (names : List String) (there : String → Option Value) (e e' : Entity) : Prop where
  model : e'.model = e.model
  fields : e'.fields = e.fields
  extra : e'.extra = e.extra
  collection : e'.collection = e.collection
  values : ∀ name, e'.value? (.text name) = e.value? (.text name) ∨
    name ∈ names ∧ e.value? (.text name) = none ∧ e'.value? (.text name) = there name
  loaded : ∀ name ∈ names, (there name).isSome → e'.isLoaded (.text name) = true

theorem Took.refl (there : String → Option Value) (e : Entity) : Took [] there e e :=
  ⟨rfl, rfl, rfl, rfl, fun _ => .inl rfl, fun _ absurd => nomatch absurd⟩

theorem Took.trans {names more : List String} {there : String → Option Value} {e e' e'' : Entity}
    (h : Took names there e e') (h' : Took more there e' e'') : Took (names ++ more) there e e'' where
  model := h'.model.trans h.model
  fields := h'.fields.trans h.fields
  extra := h'.extra.trans h.extra
  collection := h'.collection.trans h.collection
  values name := by
    rcases h'.values name with same | ⟨own, none, took⟩
    · rw [same]
      exact (h.values name).imp_right fun ⟨own, rest⟩ => ⟨List.mem_append_left _ own, rest⟩
    · refine .inr ⟨List.mem_append_right _ own, ?_, took⟩
      rcases h.values name with same | ⟨-, before, -⟩
      · exact same ▸ none
      · exact before
  loaded name own some_ := by
    rcases List.mem_append.mp own with old | new
    · have loaded := h.loaded name old some_
      rcases h'.values name with same | ⟨-, none, -⟩
      · rwa [Entity.isLoaded, same]
      · rw [Entity.isLoaded, none] at loaded
        cases loaded
    · exact h'.loaded name new some_

theorem took_takeOver (there : String → Option Value) (e : Entity) (name : String) :
    Took [name] there e (takeOver there e name) := by
  unfold takeOver
  cases held : there name with
  | none => exact ⟨rfl, rfl, rfl, rfl, fun _ => .inl rfl, by simp [held]⟩
  | some v =>
    by_cases loaded : e.isLoaded (.text name) = true
    · simp only [if_pos loaded]
      exact ⟨rfl, rfl, rfl, rfl, fun _ => .inl rfl, by simpa using fun _ => loaded⟩
    · simp only [if_neg loaded]
      refine ⟨rfl, rfl, rfl, rfl, fun n => ?_, by simp [Entity.isLoaded]⟩
      rw [Entity.value?_setRelation_text]
      by_cases same : n = name
      · subst same
        have none : e.value? (.text n) = none := by simpa [Entity.isLoaded] using loaded
        exact .inr ⟨.head _, none, by rw [if_pos rfl, held]⟩
      · exact .inl (if_neg same)

/-- Relations are taken over one after the other: by induction on their names. -/
theorem took_foldl (there : String → Option Value) (names : List String) (e : Entity) :
    Took names there e (names.foldl (takeOver there) e) := by
  induction names generalizing e with
  | nil => exact .refl there e
  | cons name rest ih => exact (took_takeOver there e name).trans (ih _)

/-- A copy takes over what it lacks from the one object that was loaded. -/
theorem glides_copyFrom {self other : ObjectId} {own : Entity} (there : w.object? self = some own)
    (equal : w.equalObjects other self = true) (apart : other ≠ self) (names : List String) :
    (Deed.copyFrom self [.object other] names).Glides runner w (.ok ())
      (w.modified self fun _ => names.foldl (takeOver (held w other)) own) := by
  rw [World.modified_of_object? there]
  refine Eq.subst (motive := fun w' => Act.Glides runner (Deed.copyFrom self [.object other] names) w
    (.ok ()) w') ?_ (Act.Glides.modify _)
  simp only [there, List.find?_cons, equal, beq_iff_eq, apart, if_false]
  rfl

/-- Objects of equal rows count as equal. -/
theorem Stands.equalObjects (h : g.Stands) {may must : ObjectId → String → Prop}
    {marked : String → Prop} (kin : g.Kin may must marked w) {row : RowKey}
    (bond : g.bond = .copies row) {id other : ObjectId} (member : id ∈ g.objects)
    (also_ : other ∈ g.objects) : w.equalObjects other id = true := by
  have bonded := h.bonded
  rw [Bonded, bond] at bonded
  obtain ⟨-, rows, unmarked⟩ := bonded
  obtain ⟨own, found⟩ := h.found kin member
  obtain ⟨own', found'⟩ := h.found kin also_
  have equal : RowKey.same ⟨.model own'.model, own'.id⟩ ⟨.model own.model, own.id⟩ = true :=
    RowKey.same_trans (rows _ found'.row).1 (rows _ found'.row).2
      (RowKey.same_symm (rows _ found.row).1 (rows _ found.row).2)
  obtain ⟨model, id_⟩ := Bool.and_eq_true_iff.mp equal
  have model : own'.model = own.model := by simpa [Value.same] using model
  simp [Env.equalObjects, found.there, found'.there, model, (unmarked _ found.row).1,
    (unmarked _ found'.row).1, show own'.id.same own.id = true from id_]

/-! What is done after the load has settled. -/

theorem Meanwhile.after (h : g.Meanwhile w w') (first : ForAll) : g.After first w w' where
  lookup := h.1.lookup
  size := h.1.size
  collections := h.1.collections
  closed := h.1.closed
  registry := h.1.registry
  limit := h.1.limit
  marks := h.1.marks
  entry := h.2
  targets id own _ := h.1.objects id own
  objects id own e there := ⟨e, (h.1.objects id own).trans there, rfl, rfl, rfl, rfl, fun _ => .inl rfl⟩

theorem Took.after {first : ForAll} {copy : ObjectId} {own own' : Entity}
    (apart : copy ∉ g.targets first.self) (inside : copy < g.start.objects.size)
    (there : w.object? copy = some own)
    (took : Took asked (held w first.self) own own') (some_ : ∀ name ∈ asked, name ∈ g.names) :
    g.After first w (w.modified copy fun _ => own') where
  lookup := rfl
  size := by simp [World.modified]
  collections := id
  closed before id e new found name v held := by
    have other : copy ≠ id := fun same => absurd (same ▸ inside) (Nat.not_lt.mpr new)
    rw [World.object?_modified, if_neg other] at found
    simpa [World.modified] using before id e new found name v held
  registry := Nat.le_refl _
  limit := rfl
  marks _ _ _ _ := id
  entry := .of_flights fun _ => rfl
  targets id _ target := by
    rw [World.object?_modified, if_neg]
    rintro rfl
    exact apart target
  objects id hid e found := by
    rw [World.object?_modified, found]
    by_cases same : copy = id
    · subst same
      obtain rfl := Option.some.inj (there.symm.trans found)
      refine ⟨own', if_pos rfl, took.model, took.fields, took.extra, took.collection, fun name => ?_⟩
      exact (took.values name).imp_right fun taken => ⟨some_ name taken.1, taken.2⟩
    · exact ⟨e, if_neg same, rfl, rfl, rfl, rfl, fun _ => .inl rfl⟩

/-- What is loaded stays. -/
theorem After.isLoadedOn {first : ForAll} (h : g.After first w w') {id : ObjectId}
    (own : id ∈ g.objects) {name : String}
    (loaded : w.isLoadedOn (.text name) (.object id) = true) :
    w'.isLoadedOn (.text name) (.object id) = true := by
  cases there : w.object? id with
  | none => simp [Env.isLoadedOn, there] at loaded
  | some e =>
    obtain ⟨e', later, -, -, -, -, values⟩ := h.objects id own e there
    have some_ : (e.value? (.text name)).isSome = true := by
      simpa [Env.isLoadedOn, there, Entity.isLoaded] using loaded
    have same : e'.value? (.text name) = e.value? (.text name) := by
      refine (values name).resolve_right fun taken => ?_
      rw [taken.2.1] at some_
      cases some_
    simp [Env.isLoadedOn, later, Entity.isLoaded, same, some_]

theorem exists_held {id : ObjectId} {name : String}
    (loaded : w.isLoadedOn (.text name) (.object id) = true) : ∃ v, held w id name = some v := by
  refine Option.isSome_iff_exists.mp ?_
  cases there : w.object? id with
  | none => simp [Env.isLoadedOn, there] at loaded
  | some e => simpa [held, there, Env.isLoadedOn, Entity.isLoaded] using loaded

theorem lacks_iff {id : ObjectId} {name : String} :
    g.Lacks id name ↔ held g.start id name = none := by
  cases there : g.start.object? id <;> simp [Scene.Lacks, held, Env.isLoadedOn, Entity.isLoaded, there]

/-- An object holds what it held, unless it may hold something else. -/
theorem held_eq (stands : g.Stands) {may must : ObjectId → String → Prop} {marked : String → Prop}
    (kin : g.Kin may must marked w) {id : ObjectId} (own : id ∈ g.objects) {name : String}
    (still : ¬ may id name) : held w id name = held g.start id name := by
  obtain ⟨e, there, -⟩ := stands.proper.objects id own
  obtain ⟨e', later, kind⟩ := kin.objects id own e there
  simp [held, there, later, kind.values name still]

/-- A copy that carries a relation after the load holds what it held, or else what the object of the load
holds. -/
theorem Over.holds {first : ForAll} {outcome : Except Error Value} (h : g.Over first outcome w)
    (stands : g.Stands) {row : RowKey} (bond : g.bond = .copies row) {id : ObjectId}
    (own : id ∈ g.objects) {name : String} (hname : name ∈ g.names)
    (loaded : w.isLoadedOn (.text name) (.object id) = true) :
    held w id name = (held g.start id name).or (held w first.self name) := by
  obtain ⟨done, -, kin⟩ := h.done
  obtain ⟨v, there⟩ := exists_held loaded
  cases before : held g.start id name with
  | some v' =>
    have still := held_eq stands kin own fun may => Option.some_ne_none v'
      (before.symm.trans (lacks_iff.mp may.2.1))
    rw [still, before, Option.some_or]
  | none =>
    rcases h.agree row bond id own name hname v there with absurd | same
    · cases before.symm.trans absurd
    · rw [there, same, Option.none_or]

theorem Over.after {first : ForAll} {outcome : Except Error Value} (stands : g.Stands)
    (h : g.Over first outcome w) (later : g.After first w w') : g.Over first outcome w' := by
  have same : ∀ name, held w' first.self name = held w first.self name := fun name => by
    rw [held, held, later.targets _ h.member (mem_targets h.member)]
  obtain ⟨done, came, kin⟩ := h.done
  refine ⟨h.member, later.entry.trans h.free, ⟨done, came, ?_⟩, fun row bond id own name there v has => ?_⟩
  · refine ⟨later.lookup.trans kin.lookup, kin.size.trans later.size,
      fun there => later.collections (kin.collections there), fun id own e there => ?_,
      later.closed kin.closed, Nat.lt_of_lt_of_le kin.registry later.registry,
      later.limit.trans kin.limit,
      fun sole row own name marked =>
        kin.marks sole row own name (later.marks sole row own name marked)⟩
    obtain ⟨e', found, kind⟩ := kin.objects id own e there
    obtain ⟨e'', found', model, fields, extra, collection, values⟩ := later.objects id own e' found
    refine ⟨e'', found', model.trans kind.model, fields.trans kind.fields, extra.trans kind.extra,
      collection.trans kind.collection, fun name still => ?_, fun name ⟨target, loaded⟩ => ?_⟩
    · rcases values name with same | ⟨hname, none, took⟩
      · rw [same, kind.values name still]
      · -- What the object of the load lacked and does not hold cannot be taken over from it.
        have lacks : g.Lacks id name := lacks_iff.mpr (by simp [held, there, ← kind.values name still, none])
        obtain ⟨leads, missing⟩ := Classical.not_imp.mp (not_and.mp (not_and.mp still hname) lacks)
        have bare := held_eq stands kin h.member fun may => missing (may.2.2 leads)
        rw [took, bare, lacks_iff.mp leads, ← kind.values name still, none]
    · obtain rfl := Option.some.inj (found'.symm.trans ((later.targets id own target).trans found))
      exact kind.loaded name ⟨target, loaded⟩
  · rw [same]
    cases found : w.object? id with
    | none =>
      -- Objects that are there stay there.
      obtain ⟨e, there, -⟩ := stands.proper.objects id own
      obtain ⟨e', found', -⟩ := kin.objects id own e there
      rw [found] at found'
      cases found'
    | some e =>
      obtain ⟨e', found', -, -, -, -, values⟩ := later.objects id own e found
      have has' : e'.value? (.text name) = some v := by simpa [held, found'] using has
      rcases values name with same | ⟨-, -, took⟩
      · exact h.agree row bond id own name there v (by simp [held, found, ← same, has'])
      · exact .inr (took ▸ has')

/-- An object that is not one of those that were loaded is another copy of the row. -/
theorem Stands.copies_of_apart (h : g.Stands) {self other : ObjectId} (member : self ∈ g.objects)
    (also_ : other ∈ g.objects) (apart : self ∉ g.targets other) :
    ∃ row, g.bond = .copies row ∧ g.targets other = [other] := by
  have bonded := h.bonded
  cases bond : g.bond with
  | members id =>
    refine absurd member ?_
    rwa [Fellows.targets, bond] at apart
  | alone id =>
    rw [Bonded, bond] at bonded
    obtain ⟨only, objects⟩ := List.length_eq_one_iff.mp bonded.2.1
    rw [objects, List.mem_singleton] at member also_
    refine absurd ?_ apart
    rw [Fellows.targets, bond, member, also_]
    exact .head _
  | copies row => exact ⟨row, rfl, by rw [Fellows.targets, bond]⟩

/-- What a call does once it is told the outcome of the load. -/
theorem Stands.serves (h : g.Stands) (perm : asked.Perm g.names) :
    (g.terms runner).Serves c (c.received asked) := by
  rintro first outcome w ⟨member, past⟩
  obtain ⟨done, came, kin⟩ := id past.done
  have idle : g.After first w w := (Meanwhile.refl w).after first
  cases outcome with
  | error e => exact ⟨.error e, w, idle, rfl, .refl _ w⟩
  | ok loaded =>
    obtain ⟨rfl, whole⟩ := came
    have loaded {w' : World τ} (later : g.After first w w') {id : ObjectId}
        (target : id ∈ g.targets first.self) {name : String} (hname : name ∈ g.names) :
        w'.isLoadedOn (.text name) (.object id) = true :=
      later.isLoadedOn (mem_of_mem_targets past.member target) (kin.isLoadedOn h.proper
        (mem_of_mem_targets past.member target) ⟨target, whole.mem_iff.mpr hname⟩)
    by_cases complete : ∀ name ∈ asked, w.isLoadedOn (.text name) (.object c.self) = true
    · refine ⟨_, w, idle, ⟨rfl, member, fun name hname => ?_⟩, ForAll.glides_received complete⟩
      exact complete name (perm.mem_iff.mpr hname)
    · have lacks : ∃ name ∈ asked, w.isLoadedOn (.text name) (.object c.self) = false := by
        simpa using complete
      have apart : c.self ∉ g.targets first.self := fun target => complete fun name hname =>
        loaded idle target (perm.mem_iff.mp hname)
      obtain ⟨row, bond, only⟩ := h.copies_of_apart member past.member apart
      obtain ⟨own, found⟩ := h.found kin member
      have other : first.self ≠ c.self := fun same => apart (same ▸ mem_targets past.member)
      have took := took_foldl (held w first.self) asked own
      refine ⟨_, _, took.after apart (h.proper.inside member) found.there fun name => perm.mem_iff.mp,
        ⟨rfl, member, fun name hname => ?_⟩, ?_⟩
      · obtain ⟨v, holds⟩ := exists_held (loaded idle (mem_targets past.member) hname)
        have some_ : (held w first.self name).isSome = true := by rw [holds]; rfl
        simp [Env.isLoadedOn, found.there, took.loaded name (perm.mem_iff.mpr hname) some_]
      · rw [only]
        exact ForAll.glides_received_lacking lacks
          (glides_copyFrom found.there (h.equalObjects kin bond member past.member) other asked)

theorem Served.after {first : ForAll} {outcome result : Except Error Value}
    (h : g.Served c result w outcome) (later : g.After first w w') :
    g.Served c result w' outcome := by
  cases outcome with
  | error e => exact h
  | ok loaded =>
    obtain ⟨same, member, all⟩ := h
    exact ⟨same, member, fun name hname => later.isLoadedOn member (all name hname)⟩

/-- The load has settled, and its key is free. -/
theorem Came.past {first : ForAll} {outcome : Except Error Value} (h : g.Came first outcome w)
    (stands : g.Stands) (f : Flights → Flights)
    (free : (w.changeFlights g.registry f).inFlight? g.registry g.key = some none) :
    g.Over first outcome (w.changeFlights g.registry f) := by
  obtain ⟨done, stage, came⟩ := h.done
  refine ⟨h.member, free, ⟨done, came, ?_⟩, fun row bond id own name hname v has => ?_⟩
  · exact (Scene.Kin.filed stage g.registry f).weaken
      (fun _ _ own => ⟨came.mem own.2.1, own.2.2, fun _ => own.2.1⟩) (fun _ _ own => own) fun _ own => own
  · by_cases target : id ∈ g.targets first.self
    · rw [Fellows.targets, bond, List.mem_singleton] at target
      exact .inr (target ▸ has)
    · exact .inl ((held_eq stands stage own fun may => target may.1).symm.trans has)

/-- While a relation is lacking, a call comes to sharing the load. -/
theorem Open.arrives (opened : g.Open done w) (h : g.Stands)
    (runner : Request → Deed τ (List Row)) {first : ForAll}
    (leads : first.self ∈ g.objects) (fits : g.Fits c w) : ∃ r asked, g.Asks c w r asked ∧
      ∃ k w', Scene.Consulted g.registry w w' ∧
        (g.terms runner).Arrives first c w k (Deed.loadTargets r c.given g.registry
          ((g.targets c.self).map .object) asked) (c.received asked) w' := by
  obtain ⟨r, asked, asks⟩ := fits.asks
  obtain ⟨own, found⟩ := h.found opened.kin fits.member
  have once : asked.Nodup := asks.perm.nodup_iff.mpr h.named.once
  have single : ∀ path ∈ asked, '.' ∉ path.toList := fun path there =>
    h.named.single path (asks.perm.mem_iff.mp there)
  have names : Deed.segments r.paths = .ok asked := by
    rw [asks.paths, ForAll.segments_text, RelationPath.group_of_single single once, List.map_map]
    exact congrArg Except.ok (List.map_id asked)
  have targets := h.targets opened.kin fits.member found.home
  obtain ⟨w', others, unknown⟩ :=
    opened.unknown h runner fits asks.perm found
  obtain ⟨k, twin, under⟩ :=
    h.glides_flightKey runner opened.kin fits.member found asks.paths asks.perm
  rw [← targets] at unknown
  have reads : c.Reads w r asked own := ⟨asks.request, names, found.there⟩
  have glides := reads.glides unknown fits.registry (under w')
  rw [targets] at glides
  exact ⟨r, asked, asks, k, w', others, twin, glides, meanwhile_of_consulted others, ⟨leads, fits.member⟩,
    fun w'' begins _ => h.ends_loadTargets fits.member fits.registry asks begins, h.serves asks.perm⟩

theorem Stands.lawful (h : g.Stands) (some_ : g.names ≠ [])
    (answers : (g.sharing runner).Answers) : (g.terms runner).Lawful where
  key := h.same_key
  pact := lawful_pact
  answers := answers
  guar_meanwhile others := others.2
  entry_guar same := same
  entry_meanwhile others := others.2
  begins_meanwhile stage others := Scene.Kin.apart stage others.1
  begins_filed f stage := Scene.Kin.filed stage g.registry f
  due_first _ fits := fits.member
  due_meanwhile member _ := member
  due_filed _ member := member
  known_due member := ⟨member, member⟩
  known_meanwhile known _ := known
  known_guar known _ := known
  known_filed _ known := known
  pending_due stage leads := by
    obtain ⟨name, hname⟩ := List.exists_mem_of_ne_nil _ some_
    exact ⟨⟨[], Scene.stage_none stage _, name, hname, List.not_mem_nil⟩, leads⟩
  arrives := fun ⟨⟨_, stage, more⟩, leads⟩ fits => by
    have opened : g.Open _ _ :=
      ⟨stage.weaken (fun _ _ own => own.2.1) (fun _ _ absurd => absurd.elim) fun _ own => own, more⟩
    obtain ⟨_, _, _, k, w', -, arrives⟩ := opened.arrives h runner leads fits
    exact ⟨k, _, _, w', arrives⟩
  past_ends f came free := came.past h f free
  ready_past past known := ⟨known.2, past⟩
  past_after past later := past.after h later
  ready_after ready later := ⟨ready.1, ready.2.after h later⟩
  served_after served later := served.after later
  after_afterwards later := later.after _

end Fellows

end Relata
