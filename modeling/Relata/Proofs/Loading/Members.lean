import Relata.Proofs.Loading.Delivered
import Relata.Proofs.Loading.ForAll
import Relata.Proofs.Loading.Joint
import Relata.Proofs.Query.Asked
import Relata.Proofs.Query.Values

/-!
Loading for all members of a collection. Calls on any of its members, for one set of paths in any
order, that find the first member without one of the first segments, share a load; and each of them
that returns leaves every path loaded on every member, however deep. Others may change anything
meanwhile but what is loaded already.
-/

namespace Relata

open Act (Ends)

/-- A collection of objects, paths to be loaded on all of them, and the registry that loads of the
paths are coordinated in. -/
structure Members where
  registry : RegistryId
  collection : CollectionId
  objects : List ObjectId
  paths : List String

namespace Members

variable {τ : Type} (g : Members)

def values : List Value := g.objects.map .object

/-- The key under which the paths are loaded. -/
def key : Value := Flights.collectionKey g.collection (ForAll.ordered g.paths)

/-- The objects are those of the collection, and relations hold nothing but what is there. -/
structure Stands (w : World τ) : Prop where
  anchored : w.Anchored
  collection : w.collections[g.collection]? = some g.objects
  present : ∀ v ∈ g.values, w.Present v

/-- Each path is followed on every member. -/
def Delivered (w : World τ) : Prop :=
  ∀ path ∈ g.paths, ∀ v ∈ g.values, w.Follows false (RelationPath.steps path) v

/-- A call for the paths on one of the objects, while the first of them lacks a first segment. -/
structure Fits (c : ForAll) (w : World τ) : Prop where
  member : c.self ∈ g.objects
  of : ∃ own, w.object? c.self = some own ∧ own.collection = some g.collection
  registry : Deed.registryId c.given = .ok g.registry
  asks : ∃ (r : LoadRequest) (asked : List String), Deed.request w.toEnv c.relations = .ok r ∧
    r.paths = asked.map .text ∧ asked.Perm g.paths
  lacks : ∃ path ∈ g.paths,
    w.isLoadedOn (.text (RelationPath.head path).1) (g.values.headD .null) = false

/-- The same load of the paths is in flight, or none. -/
def SameEntry (w w' : World τ) : Prop :=
  w'.inFlight? g.registry g.key = w.inFlight? g.registry g.key

/-- What others may do while the paths are being loaded. -/
def Meanwhile (w w' : World τ) : Prop := w.Retains w' ∧ g.SameEntry w w'

def pact : Pact (World τ) := ⟨g.SameEntry, g.Meanwhile, g.Stands⟩

def sharing (runner : Request → Deed τ (List Row)) : Sharing τ ForAll where
  runner := runner
  registry := g.registry
  key := g.key
  call := ForAll.deed
  fits := g.Fits
  meanwhile := g.Meanwhile
  afterwards := World.Retains

/-- How calls and their load end: with every path delivered, or with an error. -/
structure Comes (outcome : Except Error Value) (w : World τ) : Prop where
  stands : g.Stands w
  delivered : ∀ v, outcome = .ok v → g.Delivered w

def terms (runner : Request → Deed τ (List Row)) : (g.sharing runner).Terms where
  guar _ := g.SameEntry
  begins := g.Stands
  due _ _ := True
  pending _ := g.Stands
  known _ _ _ := True
  ends _ := g.Comes
  past _ := g.Comes
  ready _ _ := g.Comes
  served _ c _ r w := g.Comes r w ∧ ∀ v, r = .ok v → v = .object c.self
  after _ := World.Retains

variable {g} {w w' : World τ}

theorem Stands.retained (h : g.Stands w) (later : w.Retains w') : g.Stands w' :=
  ⟨later.anchored h.anchored, later.collections h.collection,
    fun v hv => later.present (h.present v hv)⟩

theorem Comes.retained {outcome : Except Error Value} (h : g.Comes outcome w)
    (later : w.Retains w') : g.Comes outcome w' :=
  ⟨h.stands.retained later, fun v ok path hpath o ho =>
    later.follows h.stands.anchored (h.stands.present o ho) (h.delivered v ok path hpath o ho)⟩

theorem same_key : g.key.same g.key = true := Flights.same_collectionKey _ _

/-- First segments that are followed are loaded. -/
theorem Delivered.isLoadedOn (h : g.Delivered w) {path : String} (hpath : path ∈ g.paths)
    {id : ObjectId} (there : id ∈ g.objects) :
    w.isLoadedOn (.text (RelationPath.head path).1) (.object id) = true := by
  have follows := h path hpath (.object id) (List.mem_map_of_mem there)
  rw [RelationPath.steps_eq] at follows
  obtain ⟨absurd, -⟩ | ⟨_, x, -, loaded, -⟩ := follows rfl
  · cases absurd
  · exact Env.isLoadedOn_iff.mpr ⟨x, loaded⟩

theorem lenient : (g.pact (τ := τ)).Lenient where
  guar same := congrArg (Option.map fun f : Flights => f.find? g.key) (same g.registry)
  rely others := others.1
  waits h later := Stands.retained h later

theorem lawful_pact : (g.pact (τ := τ)).Lawful where
  guar_refl _ := rfl
  guar_trans h h' := Eq.trans h' h
  rely_refl w := ⟨.refl w, rfl⟩
  rely_trans h h' := ⟨h.1.trans h'.1, h'.2.trans h.2⟩
  waits_rely h later := Stands.retained h later.1

/-- The load of the paths delivers them to all members. -/
theorem ends_loadTargets (stands : g.Stands w) {r : LoadRequest} {given : Value}
    (asks : ∃ env relations, Deed.request env relations = .ok r) {asked : List String}
    (paths : r.paths = asked.map .text) (perm : asked.Perm g.paths) (names : List String) :
    Ends g.pact (Deed.loadTargets r given g.registry g.values names) w g.Comes := by
  obtain ⟨env, relations, asks⟩ := asks
  have delivers := @Pact.Lenient.delivers _ g.pact lenient Loader.depthLimit w
    (.ofRequest r given false) g.values r.paths ⟨"", false⟩ stands stands.anchored rfl stands.present
  refine Act.Meets.bind delivers (fun _ w₁ done => ?_) fun _ _ done =>
    ⟨stands.retained done.1, fun _ absurd => nomatch absurd⟩
  have all : g.Delivered w₁ := fun path hpath v hv => by
    have there : .text path ∈ r.paths := paths ▸ List.mem_map_of_mem (perm.mem_iff.mpr hpath)
    exact done.2 rfl path there (Deed.bare_of_request asks there) v hv
  have comes : g.Comes (.ok (.list g.values)) w₁ := ⟨stands.retained done.1, fun _ _ => all⟩
  refine Act.Meets.bind (lenient.ends_markObjects comes.stands _ _ _) (fun _ w₂ marked => ?_)
    fun _ _ marked => ⟨comes.stands.retained marked, fun _ absurd => nomatch absurd⟩
  exact .pure (comes.retained marked)

/-- A call comes to sharing the load. -/
theorem Fits.arrives (stands : g.Stands w) (several : 2 ≤ g.objects.length)
    {runner : Request → Deed τ (List Row)} {first c : ForAll} (h : g.Fits c w) :
    ∃ k load post w', (g.terms runner).Arrives first c w k load post w' := by
  obtain ⟨own, at_, of⟩ := h.of
  obtain ⟨r, asked, asks, paths, perm⟩ := h.asks
  obtain ⟨first, second, rest, objects⟩ : ∃ first second rest, g.objects = first :: second :: rest := by
    match g.objects, several with
    | first :: second :: rest, _ => exact ⟨first, second, rest, rfl⟩
  have values : g.values = .object first :: .object second :: rest.map .object := by
    simp [Members.values, objects]
  have members : ForAll.members w own = g.values := by
    simp [ForAll.members, of, Env.collectionOf, stands.collection, Members.values]
  have targets : c.targets w own = g.values := by
    simp [ForAll.targets, members, values]
  let names := (RelationPath.group asked).map (·.1)
  have reads : c.Reads w r names own := ⟨asks, paths ▸ ForAll.segments_text asked, at_⟩
  have lacks : ∃ name ∈ names, w.isLoadedOn (.text name) (.object first) = false := by
    obtain ⟨path, hpath, unloaded⟩ := h.lacks
    obtain ⟨segment, there, head, -⟩ := RelationPath.grouped_group (perm.mem_iff.mpr hpath)
    rw [values] at unloaded
    exact ⟨_, List.mem_map_of_mem there, head ▸ unloaded⟩
  have under : (Deed.flightKey own (ForAll.members w own) r.paths).Glides runner w
      (.ok g.key) w := by
    have shown : r.paths.map (·.shown) = asked := by
      rw [paths, List.map_map]
      exact List.map_id asked
    have key := @ForAll.glides_flightKey _ runner w own (ForAll.members w own) _ of
      (by rw [members, values]; exact List.cons_ne_nil _ _) r.paths
    rwa [shown, ForAll.ordered_eq_of_perm perm] at key
  have unknown : (Deed.knownOn own (c.targets w own) names c.given).Glides runner w (.ok false) w := by
    rw [targets, values]
    exact ForAll.glides_knownOn own c.given lacks
  have glides := reads.glides unknown h.registry under
  refine ⟨g.key, _, _, w, ?_, glides, ⟨.refl w, rfl⟩, trivial, fun w' stands' _ => ?_,
    fun _ outcome w' comes => ?_⟩
  · exact .refl same_key
  · rw [targets]
    exact ends_loadTargets stands' ⟨_, _, asks⟩ paths perm names
  · cases outcome with
    | error e => exact ⟨.error e, w', .refl w', ⟨comes, fun _ absurd => by cases absurd⟩, .refl _ w'⟩
    | ok loaded =>
      refine ⟨.ok (.object c.self), w', .refl w', ⟨⟨comes.stands, fun _ _ => comes.delivered _ rfl⟩,
        fun _ same => (Except.ok.inj same).symm⟩, ForAll.glides_received fun name hname => ?_⟩
      obtain ⟨segment, there, rfl⟩ := List.mem_map.mp hname
      obtain ⟨path, hpath, head⟩ := RelationPath.head_of_mem_group there
      rw [head]
      exact (comes.delivered _ rfl).isLoadedOn (perm.mem_iff.mp hpath) h.member

theorem lawful {runner : Request → Deed τ (List Row)} (several : 2 ≤ g.objects.length)
    (answers : (g.sharing runner).Answers) : (g.terms runner).Lawful where
  key := same_key
  pact _ := lawful_pact
  answers := answers
  guar_meanwhile others := others.2
  entry_guar same := same
  entry_meanwhile others := others.2
  begins_meanwhile h others := Stands.retained h others.1
  begins_filed _ h := Stands.retained h (.registries _ _)
  due_first _ _ := trivial
  due_meanwhile _ _ := trivial
  due_filed _ _ := trivial
  known_due _ := trivial
  known_meanwhile _ _ := trivial
  known_guar _ _ := trivial
  known_filed _ _ := trivial
  pending_due h _ := h
  arrives stands fits := Fits.arrives stands several fits
  past_ends _ h _ := Comes.retained h (.registries _ _)
  ready_past h _ := h
  past_after h later := Comes.retained h later
  ready_after h later := Comes.retained h later
  served_after h later := ⟨Comes.retained h.1 later, h.2⟩
  after_afterwards later := later

/-- Whoever returns from a call to load paths for all members of a collection, made while the first
of them lacked one of the first segments, finds every path followed on every member: in any order of
arrivals and turns, whatever others do meanwhile to what is not loaded yet. -/
theorem paths_delivered {runner : Request → Deed τ (List Row)} {start : World τ}
    (several : 2 ≤ g.objects.length) (stands : g.Stands start)
    (free : start.inFlight? g.registry g.key = some none)
    (answers : (g.sharing runner).Answers) {x : Joint τ ForAll}
    (reached : Joint.Reached (g.sharing runner) start x) {c : Joint.Call ForAll} (hc : c ∈ x.calls)
    {v : Value} (returns : x.schedule.Settled c.task (.ok v)) :
    v = .object c.what.self ∧ g.Delivered x.schedule.state := by
  obtain ⟨_, _, _, _, comes, self⟩ :=
    (reached.sound (T := g.terms runner) (lawful several answers) stands free).served hc returns
  exact ⟨self v rfl, comes.delivered v rfl⟩

/-- Posts with replies, and with a subject of a class that depends on the post. -/
def subjectPost : Model :=
  { threadedPost with
    fields := [⟨"id", ⟨.any, true⟩, some .null⟩]
    declared := threadedPost.declared ++ [("subject", 0, ⟨.direct [("kind", .text "morph_to"),
      ("type_column", .text "subject_type"), ("id_column", .text "subject_id")], [], none, []⟩)] }

/-- Labels have no relations. -/
def label : Model :=
  { plainPost with
    id := 1
    name := "Label"
    key := "Label"
    ancestry := [.model 1, .root]
    fields := [⟨"id", ⟨.any, true⟩, some .null⟩]
    namedTable := .text "labels" }

/-- A post on a label, fetched with others. -/
def labelledPost (id : Int) : Entity :=
  ⟨0, [("id", .int id)], [("subject_type", .text "labels"), ("subject_id", .int 9)], [], some 0⟩

/-- Two posts that were fetched together. -/
def twoPosts : World Unit where
  toEnv := { plainEnv with
    catalog := ⟨#[subjectPost, label]⟩
    objects := #[labelledPost 1, labelledPost 2]
    collections := #[[0, 1]]
    registries := #[.empty Registry.defaultLimit] }
  tagMaps := #[]
  connections := [("default", 0)]
  warnings := []
  rest := ()

/-- One label, and one reply to the first post; whoever asks waits for a turn. -/
def shelf (r : Request) : Deed Unit (List Row) := do
  Act.pause
  return if r.params.any (·.same (.int 9)) then [[("id", .int 9)]]
    else [[("id", .int 10), ("parent", .int 1)]]

/-- Replies of replies, and subjects, for two posts at once. -/
def twoPaths : Members := ⟨0, 0, [0, 1], ["replies.replies", "subject"]⟩

/-- A call on the second post, for the paths in another order. -/
def bothPaths : ForAll := ⟨1, .list [.text "subject", .text "replies.replies"], .null⟩

/-- The call, and what comes of it. -/
def served : Joint Unit ForAll :=
  let asked := Joint.arrive (twoPaths.sharing shelf) ⟨⟨twoPosts, [], #[], []⟩, []⟩ bothPaths
  { asked with schedule := asked.schedule.runFor 20 }

theorem bare_twoPosts {id : ObjectId} {e : Entity} (there : twoPosts.object? id = some e) :
    e.slots = [] := by
  have none : ∀ e ∈ [labelledPost 1, labelledPost 2], e.slots = [] := by simp [labelledPost]
  exact none e (Array.mem_of_getElem? there |> Array.mem_toList_iff.mpr)

theorem stands_twoPosts : twoPaths.Stands twoPosts := by
  refine ⟨fun {id e name v} there held => ?_, rfl, ?_⟩
  · simp [Entity.value?, Entity.slot?, bare_twoPosts there, Value.lookup?] at held
  · simp [Members.values, twoPaths, Env.Present, twoPosts]

/-- The call returns, and every path is followed on both posts. -/
theorem both_delivered : ∃ v, served.schedule.Settled 0 (.ok v) ∧ v = .object 1 ∧
    twoPaths.Delivered served.schedule.state := by
  have fits : twoPaths.Fits bothPaths twoPosts := by
    refine ⟨.tail _ (.head _), ⟨_, rfl, rfl⟩, rfl, ⟨_, ["subject", "replies.replies"], by rfl, rfl,
      .swap _ _ _⟩, "subject", .tail _ (.head _), rfl⟩
  have reached : Joint.Reached (twoPaths.sharing shelf) twoPosts served :=
    .runFor (.step .start (.arrive (by rintro ⟨_, absurd, _⟩; cases absurd) fits)) 20
  have answers : (twoPaths.sharing shelf).Answers := fun r last =>
    .pause fun signal => by cases signal <;> exact .ends _
  obtain ⟨v, returns⟩ : ∃ v, served.schedule.Settled 0 (.ok v) := by
    have ended : (served.schedule.outcomes[0]?).join.any (·.isOk) = true := by decide +kernel
    obtain ⟨outcome, there, ok⟩ := (Option.any_eq_true _ _).mp ended
    cases outcome with
    | error e => cases ok
    | ok v => exact ⟨v, Option.join_eq_some_iff.mp there⟩
  exact ⟨v, returns, paths_delivered (by decide) stands_twoPosts rfl answers reached
    (c := ⟨0, bothPaths, 1⟩) (.head _) returns⟩

end Members

namespace Env

/-- Whether the segments are loaded all the way on from a value: the first on the value, the next
one on each object that the first one holds, and so on. -/
def leadsOn (env : Env) : List String → Value → Bool
  | [], _ => true
  | name :: rest, v => match Loader.relationOf env v name with
    | .ok x => (env.heldBy x).all (env.leadsOn rest)
    | .error _ => false

end Env

namespace Members

def after (main : Deed Unit Value) : Except Error Value × World Unit :=
  Schedule.finish ((main .done).answered shelf) twoPosts

/-- The second member is left without a relation that was loaded on the first one alone; what one
call has loaded at depth is replaced by a concurrent one that does not go as deep; and what a
relation of varying class leads to is passed over if its class lacks the next relation. In all three
cases the call returns. -/
theorem paths_left_out :
    (let second := after do
      Deed.loadMany [.object 0] (.text "replies") .null false
      ForAll.deed ⟨1, .text "replies", .null⟩
    second.1.isOk = true ∧ second.2.leadsOn ["replies"] (.object 1) = false) ∧
    (let deep := after do
      let deep ← Act.spawn fun _ => ForAll.deed ⟨0, .text "replies.replies", .null⟩
      let shallow ← Act.spawn fun _ => ForAll.deed ⟨1, .text "replies", .null⟩
      discard (Act.join shallow)
      Act.join deep
    deep.1.isOk = true ∧ deep.2.leadsOn ["replies"] (.object 0) = true ∧
      deep.2.leadsOn ["replies", "replies"] (.object 0) = false) ∧
    (let varied := after (ForAll.deed ⟨0, .text "subject.replies", .null⟩)
    varied.1.isOk = true ∧ varied.2.leadsOn ["subject"] (.object 0) = true ∧
      varied.2.leadsOn ["subject", "replies"] (.object 0) = false) := by
  decide +kernel

end Members

end Relata
