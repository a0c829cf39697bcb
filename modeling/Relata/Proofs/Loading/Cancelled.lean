import Relata.Proofs.Loading.Twice
import Relata.Proofs.Query.Cancelled

/-!
What a query loads when paths have been cancelled. Executing a query is a statement of its own and then,
on the objects made of the rows, a tour of the prefixes of the paths that are left. A path that is
cancelled by name is no longer one of these; but where a longer path is left, its prefixes are loaded, the
cancelled one among them. Main statement: what is cancelled is not loaded, nor is anything behind it, as
long as no path that is left reaches it, and is loaded all the same if one does; whatever lies apart from
it is loaded as it was before.
-/

namespace Relata

open Act (Runs Carries)
open RelationPath (before Begins Reaches)

namespace Query

variable {τ : Type} {w u t : World τ} {sent : Dialogue}

/-- The objects of the rows that the query is answered with. -/
def opening (q : Query) : Deed τ (List ObjectId) := do
  let f ← Act.ofExcept (q.statement.checked "get")
  let rows ← Deed.execute q.select.source.connection f.text f.values
  let found ← rows.mapM (q.object .null)
  return found.map (·.2)

/-- The relations that the query asks for are loaded on the objects before they are handed out. -/
def closing (q : Query) (registry : Value) (members : List ObjectId) : Deed τ Fetched := do
  if !q.loads.paths.isEmpty && !members.isEmpty then
    Loader.load (.ofRequest q.loads registry false) (members.map .object) q.loads.paths
  let collection ← Deed.adopt members
  return ⟨collection, members, []⟩

theorem get_eq (q : Query) (registry : Value) :
    q.get (τ := τ) registry = q.opening >>= q.closing registry := rfl

theorem made_opening (q : Query) : Deed.Made (τ := τ) World.Grows q.opening := by
  refine .ofExcept_bind fun f passed => (Deed.made_execute passed _).bind fun rows => ?_
  exact (Deed.Made.mapM (q.made_object .null)).bind fun _ => .pure _

/-- The objects are new, of the model that the query reads, and nothing has been loaded on them. -/
theorem of_opening {q : Query} {m : Model} {members : List ObjectId} (reads : q.Reads m.source)
    (known : w.catalog.model? m.id = some m) (runs : Runs Eq q.opening w sent (.ok members) u) :
    (∃ n f rows, q.statement.checked "get" = .ok f ∧ sent = [(⟨n, f.text, f.values⟩, .ok rows)]) ∧
      w.Grows u ∧ ∀ id ∈ members, w.objects.size ≤ id ∧ u.modelOfValue? (.object id) = some m ∧
        ∀ name, u.valueOf id name = none := by
  obtain ⟨f, passed, asks⟩ := Deed.carries_ofExcept_bind runs.carries
  obtain ⟨_, later, rows, w₁, rfl, asked, -, answered⟩ := (Deed.made_execute passed _).ok_of_bind asks
  obtain ⟨n, -, rfl, rfl⟩ := Deed.carries_execute asked.carries
  obtain ⟨_, last, found, w₂, rfl, loops, -, ends⟩ :=
    (Deed.Made.mapM (q.made_object .null)).ok_of_bind answered
  obtain ⟨rfl, adds, made, keyed, -, objects⟩ := runs_objects World.latitude_adds loops.carries
  obtain ⟨rfl, same, rfl⟩ := ends.silent (.ofExcept (.ok _) _)
  obtain rfl := Except.ok.inj same
  refine ⟨⟨n, f, rows, passed, by simp⟩, adds.grows, fun id there => ?_⟩
  obtain ⟨p, own, new⟩ := exists_of_mem_right objects there
  obtain ⟨row, -, became⟩ := exists_of_mem_right keyed own
  obtain ⟨m', known', model⟩ := Loader.model_of_keyed reads became
  obtain rfl := Option.some.inj (known.symm.trans known')
  obtain ⟨e, stands, model', -⟩ := new.2
  refine ⟨new.1, Option.bind_eq_some_iff.mpr ⟨e, stands, ?_⟩, fun name => ?_⟩
  · rw [Env.modelOf?, model', model, adds.grows.lookup]
    exact known
  · rw [World.valueOf_of_slotsOf (adds.untouched.slots id), World.valueOf_eq_none new.1]

end Query

namespace Query

variable {τ : Type} {w u t : World τ} {sent : Dialogue}

/-- The relations on a path lead to models that are known beforehand, and the queries that the loads of
this one put for them ask for no more relations. -/
def Straight (q : Query) (registry : Value) (l : Lookup) (m : Model) (path : String) : Prop :=
  (Loader.ofRequest q.loads registry false).Straight l [] m (RelationPath.steps path)

/-- What a query asks for can be loaded, on objects of the model that it reads. -/
structure Loadable (q : Query) (registry : Value) (w : World τ) (m : Model) (paths : List String) : Prop where
  grounded : w.catalog.Grounded
  known : w.catalog.model? m.id = some m
  reads : q.Reads m.source
  texts : q.loads.paths = paths.map .text
  bare : ∀ path ∈ paths, ':' ∉ path.toList
  straight : ∀ path ∈ paths, q.Straight registry w.toLookup m path

open Loader (Tour)

/-- The loads that a query asks for make a tour of the prefixes of its paths. -/
theorem runs_closing {q : Query} {registry : Value} {m : Model} {paths : List String}
    {xs : List ObjectId} {r : Except Error Fetched} (loadable : q.Loadable registry u m paths)
    (model : ∀ id ∈ xs, u.modelOfValue? (.object id) = some m)
    (lack : ∀ id ∈ xs, ∀ name, u.valueOf id name = none)
    (carries : Carries (q.closing registry xs) u sent r t) :
    (∀ page, r = .ok page → page.members = xs) ∧ ∃ stops, sent = stops.flatMap (·.sent) ∧
      Tour (.ofRequest q.loads registry false) [] xs (Begins paths) u t stops (∃ page, r = .ok page) := by
  -- Handing out the objects comes last, whether or not relations are loaded before.
  have adopts {v : World τ} {rest : Dialogue}
      (carries : Carries (Deed.adopt xs >>= fun c => pure (⟨c, xs, []⟩ : Fetched)) v rest r t) :
      rest = [] ∧ (∃ page, r = .ok page) ∧ (∀ page, r = .ok page → page.members = xs) ∧
        t = v.adopted xs := by
    have runs : Runs Eq (Deed.adopt xs) v [] (.ok v.collections.size) (v.adopted xs) := .modifyGet _ v
    obtain ⟨rfl, rfl, rfl⟩ := carries.silent (runs.bind (.ofExcept (.ok _) _))
    exact ⟨rfl, ⟨_, rfl⟩, fun page same => Except.ok.inj same ▸ rfl, rfl⟩
  unfold closing at carries
  split at carries
  · have ready : Loader.Ready (.ofRequest q.loads registry false) [] xs m paths u :=
      ⟨loadable.grounded, model, loadable.bare, loadable.straight, fun id own name _ => lack id own name⟩
    rw [loadable.texts] at carries
    obtain ⟨e, rfl, loads, -⟩ | ⟨first, later, _, v, rfl, loads, -, rest⟩ :=
      (Loader.made_load _ _ _).of_bind carries
    · obtain ⟨stops, rfl, tour⟩ := Loader.toured _ Loader.depthLimit ready loads.carries
      refine ⟨(fun page absurd => by cases absurd), stops, rfl, ?_⟩
      simpa using tour
    · obtain ⟨stops, rfl, tour⟩ := Loader.toured _ Loader.depthLimit ready loads.carries
      obtain ⟨rfl, ended, members, rfl⟩ := adopts rest
      rw [eq_true ended]
      rw [eq_true rfl] at tour
      exact ⟨members, stops, List.append_nil _, tour.later (v.adds_adopted xs) (v.size_adopted xs)⟩
  · next less =>
    obtain ⟨rfl, -, members, rfl⟩ := adopts carries
    refine ⟨members, [], rfl, ?_⟩
    refine (Tour.idle (fun id own name _ => lack id own name) fun _ p want => ?_).later
      (u.adds_adopted xs) (u.size_adopted xs)
    obtain ⟨-, path, there, -⟩ := want
    have none : xs = [] := by
      rw [loadable.texts] at less
      cases paths with
      | nil => cases there
      | cons => simpa using less
    rw [none, World.level_nil]

/-- How a query was executed: by a statement of its own, of whose rows the objects `xs` were made, and by
the loads at the stops of a tour on these. -/
structure Executed (q : Query) (registry : Value) (m : Model) (paths : List String) (w : World τ)
    (sent : Dialogue) (r : Except Error Fetched) (t : World τ) (own : Dialogue) (xs : List ObjectId)
    (u : World τ) (stops : List Stop) : Prop where
  sent : sent = own ++ stops.flatMap (·.sent)
  grows : w.Grows u
  objects : ∀ id ∈ xs, w.objects.size ≤ id ∧ u.modelOfValue? (.object id) = some m ∧
    ∀ name, u.valueOf id name = none
  tour : Tour (.ofRequest q.loads registry false) [] xs (Begins paths) u t stops (∃ page, r = .ok page)
  page : ∀ page, r = .ok page → page.members = xs ∧ Runs Eq q.opening w own (.ok xs) u ∧
    ∃ n f rows, q.statement.checked "get" = .ok f ∧ own = [(⟨n, f.text, f.values⟩, .ok rows)]

theorem executed_of_runs {q : Query} {registry : Value} {m : Model} {paths : List String}
    {r : Except Error Fetched} (loadable : q.Loadable registry w m paths)
    (runs : Runs Eq (q.get registry) w sent r t) :
    ∃ own xs u stops, q.Executed registry m paths w sent r t own xs u stops := by
  have carries := runs.carries
  rw [get_eq] at carries
  obtain ⟨e, rfl, -, -⟩ | ⟨own, later, xs, u, rfl, opens, grows, closes⟩ := q.made_opening.of_bind carries
  · -- There are no objects that anything could be loaded on.
    have tour : Tour (.ofRequest q.loads registry false) [] [] (Begins paths) t t []
        (∃ page, (Except.error e : Except Error Fetched) = .ok page) :=
      .idle (List.forall_mem_nil _) fun _ p _ => World.level_nil _ _
    obtain ⟨_, grows⟩ := (made_get q registry).runs_of_carries World.Grows.refl World.Grows.trans
      runs.carries
    exact ⟨sent, [], t, [], (List.append_nil _).symm, grows, List.forall_mem_nil _, tour,
      fun _ absurd => by cases absurd⟩
  · obtain ⟨asked, -, objects⟩ := of_opening loadable.reads loadable.known opens
    have later : q.Loadable registry u m paths := { loadable with
      grounded := grows.lookup ▸ loadable.grounded
      known := grows.lookup ▸ loadable.known
      straight := grows.lookup ▸ loadable.straight }
    obtain ⟨members, stops, rfl, tour⟩ := runs_closing later
      (fun id there => (objects id there).2.1) (fun id there => (objects id there).2.2) closes
    exact ⟨own, xs, u, stops, rfl, grows, objects, tour, fun page same => ⟨members page same, opens, asked⟩⟩

section Executed

variable {q : Query} {registry : Value} {m : Model} {paths : List String} {r : Except Error Fetched}
  {own : Dialogue} {xs : List ObjectId} {stops : List Stop}
  (h : q.Executed registry m paths w sent r t own xs u stops)
include h

/-- Nothing is loaded at a relation that no path reaches, or behind it. -/
theorem Executed.not_prefix {name : String} (away : ∀ path ∈ paths, ¬ Reaches path name) :
    ∀ s ∈ stops, ¬ RelationPath.steps name <+: s.path := by
  intro s there part
  obtain ⟨-, path, own, inside⟩ := h.tour.among s there
  exact away path own (part.trans inside)

/-- Whatever a path reaches is loaded, if there are objects to load it on. -/
theorem Executed.loaded {name : String} (reached : ∃ path ∈ paths, Reaches path name)
    (ended : ∃ page, r = .ok page) (some_ : t.level xs (RelationPath.steps name).dropLast ≠ []) :
    t.Loaded xs (RelationPath.steps name) := by
  have begins : Begins paths (RelationPath.steps name) :=
    ⟨by rw [RelationPath.steps_eq]; exact List.cons_ne_nil _ _, reached⟩
  exact (h.tour.loaded_iff ended begins).mpr some_

end Executed

/-- A path that no cancelled one is part of is looked up as before. -/
theorem agrees_cancelling {q : Query} {registry : Value} {names : List String} {path : String}
    (kept : path ∉ names) : Loader.Agrees (.ofRequest q.loads registry false)
      (.ofRequest (q.cancelling names).loads registry false) path where
  size := rfl
  query env d m keys := by
    have away : ¬ (names.map Value.text).any (Value.text path).same = true := by
      rw [LoadRequest.any_same_texts]
      simpa using kept
    have columns : (q.loads.remove (names.map .text)).restriction? path = _ :=
      LoadRequest.restriction?_remove path
    have callbacks : (q.loads.remove (names.map .text)).refinement? path = _ :=
      LoadRequest.refinement?_remove path
    rw [if_neg away] at columns callbacks
    unfold LoadRequest.restriction? at columns
    unfold LoadRequest.refinement? at callbacks
    simp only [Loader.chunkQuery, Loader.columnsFor, Loader.refined, Loader.ofRequest, cancelling, columns,
      callbacks]

theorem shared_cancelling {q : Query} {registry : Value} {names paths : List String} {path : String}
    (there : path ∈ paths) (away : ∀ name ∈ names, ¬ Reaches path name) {p : List String} {last : String}
    (part : p ++ [last] <+: RelationPath.steps path) :
    Loader.Shared (.ofRequest q.loads registry false) (.ofRequest (q.cancelling names).loads registry false)
      (Begins paths) (Begins (paths.filter (· ∉ names))) p last where
  one := ⟨by simp, path, there, part⟩
  other := by
    have kept : path ∉ names := fun named => away path named List.prefix_rfl
    exact ⟨by simp, path, List.mem_filter.mpr ⟨there, by simpa using kept⟩, part⟩
  agrees := agrees_cancelling fun named => away _ named <|
    (RelationPath.steps_joined_prefix fun s own =>
      RelationPath.not_mem_of_mem_steps (part.subset own)).trans part

section Alike

/-- Two loads have come to the same down a path: each relation on it is loaded by both or by neither, leads
to objects made of the same columns, and took the same statements. -/
def LoadedAlike (path : String) (xs : List ObjectId) (t t' : World τ) (stops stops' : List Stop) : Prop :=
  ∀ p, p ≠ [] → p <+: RelationPath.steps path →
    (t.Loaded xs p ↔ t'.Loaded xs p) ∧
    List.Forall₂ (World.Twins t t') (t.level xs p) (t'.level xs p) ∧
    ∀ s ∈ stops, ∀ s' ∈ stops', s.path = p → s'.path = p → s.sent = s'.sent

variable {q : Query} {registry : Value} {m : Model} {names paths : List String} {t' u' : World τ}
  {page page' : Fetched} {sent' own own' : Dialogue} {xs xs' : List ObjectId} {stops stops' : List Stop}
  {answers : Request → Except Error (List Row)}

/-- Answered alike, a query and what is left of it when paths have been cancelled find the same down a
path that comes to none of these, and by the same statements. -/
theorem Executed.alike (grounded : w.catalog.Grounded)
    (h : q.Executed registry m paths w sent (.ok page) t own xs u stops)
    (h' : (q.cancelling names).Executed registry m (paths.filter (· ∉ names)) w sent' (.ok page') t'
      own' xs' u' stops')
    (obeys : Obeys answers sent) (obeys' : Obeys answers sent') :
    own = own' ∧ xs = xs' ∧ ∀ path ∈ paths, (∀ name ∈ names, ¬ Reaches path name) →
      (Loader.ofRequest q.loads registry false).Settled w.toLookup [] m (RelationPath.steps path) →
      LoadedAlike path xs t t' stops stops' := by
  have told := h.sent
  have told' := h'.sent
  subst told told'
  obtain ⟨first, later⟩ := List.forall_mem_append.mp obeys
  obtain ⟨first', later'⟩ := List.forall_mem_append.mp obeys'
  obtain ⟨-, opens, -⟩ := h.page page rfl
  obtain ⟨-, opens', -⟩ := h'.page page' rfl
  obtain ⟨rfl, same, rfl⟩ := opens.unique_of_obeys opens' first first'
  obtain rfl := Except.ok.inj same
  refine ⟨rfl, rfl, fun path there away settled => ?_⟩
  have ended (page : Fetched) : (∃ other, (Except.ok page : Except Error Fetched) = .ok other) = True :=
    eq_true ⟨page, rfl⟩
  have tour := h.tour
  have tour' := h'.tour
  rw [ended] at tour tour'
  have begun : List.Forall₂ (World.Twins t t') (t.level xs []) (t'.level xs []) :=
    List.forall₂_same.mpr fun id own => by
      obtain ⟨-, model, -⟩ := h.objects id own
      obtain ⟨e, stands, -⟩ := Option.bind_eq_some_iff.mp model
      have holds := World.holds_of_object? stands
      exact ⟨e, holds.later tour.grows, holds.later tour'.grows⟩
  have settled : (Loader.ofRequest q.loads registry false).Settled u.toLookup [] m
    (RelationPath.steps path) := h.grows.lookup ▸ settled
  have down {p : List String} (part : p <+: RelationPath.steps path) :
      List.Forall₂ (World.Twins t t') (t.level xs p) (t'.level xs p) ∧
        ∀ s ∈ stops, ∀ s' ∈ stops', s.path = p → s'.path = p → p ≠ [] → s.sent = s'.sent :=
    Loader.levels_alike (h.grows.lookup ▸ grounded) tour tour'
      (fun s there p own => later p (List.mem_flatMap.mpr ⟨s, there, own⟩))
      (fun s there p own => later' p (List.mem_flatMap.mpr ⟨s, there, own⟩)) begun
      (fun o there => tour.grows.modelOfValue? (h.objects o there).2.1) (settled.of_start part)
      fun p' last part' => shared_cancelling there away (part'.trans part)
  intro p some_ part
  have kept : path ∉ names := fun named => away path named List.prefix_rfl
  have one : Begins paths p := ⟨some_, path, there, part⟩
  have other : Begins (paths.filter (· ∉ names)) p :=
    ⟨some_, path, List.mem_filter.mpr ⟨there, by simpa using kept⟩, part⟩
  obtain ⟨twins, statements⟩ := down part
  refine ⟨?_, twins, fun s there s' there' at_ at_' => statements s there s' there' at_ at_' some_⟩
  rw [tour.loaded_iff trivial one, tour'.loaded_iff trivial other]
  exact not_congr (eq_nil_of_forall₂ (down (p.dropLast_prefix.trans part)).1)

end Alike

section Main

variable {m : Model} {before : Query} {paths names : List String} {registry : Value}

/-- What has come of cancelling the paths `names`, of which `rest` are left: what the query loads, and what
of it is as it was. -/
structure CancelledByName (before after : Query) (registry : Value) (m : Model) (w : World τ)
    (paths names rest : List String) : Prop where
  left : before.Cancelled after names rest
  /-- What no path reaches any more is neither restricted nor refined, and nothing behind it is. -/
  forgotten : ∀ name ∈ names, (∀ path ∈ rest, ¬ Reaches path name) → ∀ s, Reaches s name →
    after.loads.restriction? s = none ∧ after.loads.refinement? s = none
  runs : ∀ answers, ∃ sent r t, Runs Eq (after.get registry) w sent r t ∧ Obeys answers sent
  /-- What no path reaches any more is not loaded, nor is anything behind it; what one still reaches is. -/
  loads : (∀ path ∈ rest, after.Straight registry w.toLookup m path) →
    ∀ sent r t, Runs Eq (after.get registry) w sent r t → ∃ own xs u stops,
      after.Executed registry m rest w sent r t own xs u stops ∧ ∀ name ∈ names,
        ((∀ path ∈ rest, ¬ Reaches path name) → ∀ s ∈ stops, ¬ RelationPath.steps name <+: s.path) ∧
        ((∃ path ∈ rest, Reaches path name) → (∃ page, r = .ok page) →
          t.level xs (RelationPath.steps name).dropLast ≠ [] → t.Loaded xs (RelationPath.steps name))
  kept : ∀ path ∈ paths, (∀ name ∈ names, ¬ Reaches path name) → path ∈ rest ∧ ∀ s, Reaches path s →
    after.loads.restriction? s = before.loads.restriction? s ∧
      after.loads.refinement? s = before.loads.refinement? s
  /-- Given the same answers, what comes to no cancelled path is loaded as before. -/
  alike : (∀ path ∈ paths, before.Straight registry w.toLookup m path) →
    (∀ path ∈ rest, after.Straight registry w.toLookup m path) →
    ∀ answers sent sent' page page' t t', Runs Eq (before.get registry) w sent (.ok page) t →
      Runs Eq (after.get registry) w sent' (.ok page') t' → Obeys answers sent → Obeys answers sent' →
      ∃ own xs u u' stops stops',
        before.Executed registry m paths w sent (.ok page) t own xs u stops ∧
        after.Executed registry m rest w sent' (.ok page') t' own xs u' stops' ∧
        ∀ path ∈ paths, (∀ name ∈ names, ¬ Reaches path name) →
          (Loader.ofRequest before.loads registry false).Settled w.toLookup [] m
            (RelationPath.steps path) →
          LoadedAlike path xs t t' stops stops'

theorem cancelledByName (grounded : w.catalog.Grounded) (known : w.catalog.model? m.id = some m)
    (arises : before.Arises m) (texts : before.loads.paths = paths.map .text) :
    before.CancelledByName (before.cancelling names) registry m w paths names
      (paths.filter (· ∉ names)) := by
  have tidy := arises.tidy
  have left := cancelled_cancelling texts tidy names
  have bare : ∀ path ∈ paths, ':' ∉ path.toList := fun path there =>
    tidy.bare path (texts ▸ List.mem_map_of_mem there)
  have loadable (straight : ∀ path ∈ paths, before.Straight registry w.toLookup m path) :
      before.Loadable registry w m paths := ⟨grounded, known, arises.reads, texts, bare, straight⟩
  have loadable' (straight : ∀ path ∈ paths.filter (· ∉ names),
      (before.cancelling names).Straight registry w.toLookup m path) :
      (before.cancelling names).Loadable registry w m (paths.filter (· ∉ names)) :=
    ⟨grounded, known, arises.reads, left.paths, fun path there => bare path (List.mem_filter.mp there).1,
      straight⟩
  refine ⟨left, ?_, ?_, ?_, ?_, ?_⟩
  · exact fun name named away s below => left.accounted s fun there => away s there below
  · intro answers
    obtain ⟨sent, r, t, runs, -, obeys⟩ :=
      (made_get (before.cancelling names) registry).runs (fun _ => Eq.refl _) answers w
    exact ⟨sent, r, t, runs, obeys⟩
  · intro straight sent r t runs
    obtain ⟨own, xs, u, stops, executed⟩ := executed_of_runs (loadable' straight) runs
    exact ⟨own, xs, u, stops, executed, fun name _ => ⟨executed.not_prefix, executed.loaded⟩⟩
  · intro path there away
    have apart {s : String} (below : Reaches path s) : s ∉ names := fun named => away s named below
    refine ⟨List.mem_filter.mpr ⟨there, by simpa using apart List.prefix_rfl⟩, fun s below => ?_⟩
    rw [left.restriction, left.refinement, if_neg (apart below), if_neg (apart below)]
    exact ⟨rfl, rfl⟩
  · intro straight straight' answers sent sent' page page' t t' runs runs' obeys obeys'
    obtain ⟨own, xs, u, stops, executed⟩ := executed_of_runs (loadable straight) runs
    obtain ⟨own', xs', u', stops', executed'⟩ := executed_of_runs (loadable' straight') runs'
    obtain ⟨rfl, rfl, alike⟩ := executed.alike grounded executed' obeys obeys'
    exact ⟨own, xs, u, u', stops, stops', executed, executed', alike⟩

/-- A call that cancels paths of a query that asks for some succeeds, and cancels by name: what is
cancelled is loaded all the same if it is part of a path that is left. -/
theorem final_without_cancels_by_name (given : List PathArgument) (grounded : w.catalog.Grounded)
    (known : w.catalog.model? m.id = some m) (arises : before.Arises m)
    (texts : before.loads.paths = paths.map .text) (registry : Value) :
    ∃ after, w.toEnv.call (.mk "without" (given.map PathArgument.value) []) before = .ok .self after ∧
      before.CancelledByName after registry m w paths (given.flatMap PathArgument.paths)
        (paths.filter (· ∉ given.flatMap PathArgument.paths)) :=
  ⟨before.cancelling (given.flatMap PathArgument.paths), Build.call_without w.toEnv texts given,
    cancelledByName grounded known arises texts⟩

end Main

open Loader (oneByOne)

/-- Posts with their replies and the replies to these. -/
def askedReplies : Query :=
  { blank Members.subjectPost.source .null with
    loads := ⟨["replies", "replies.replies"].map .text, [], []⟩ }

/-- Two posts, if no posts with certain keys are asked for. -/
def postsAndReply (r : Request) : Except Error (List Row) :=
  if r.params.isEmpty then .ok [[("id", .int 1)], [("id", .int 2)]] else Loader.oneReply r

theorem straight_replies {q : Query} (columns : q.loads.columns = []) (callbacks : q.loads.callbacks = [])
    {path : String} (only : ∀ name ∈ RelationPath.steps path, name = "replies") :
    q.Straight .null Members.twoPosts.toLookup Members.subjectPost path :=
  Loader.along_replies (fun _ =>
    ⟨by decide, Loader.flat_of_unrefined (Loader.unrefined_replies columns callbacks _)⟩) only []

theorem arises_askedReplies : askedReplies.Arises Members.subjectPost := by
  have ran : Members.twoPosts.toEnv.call
      (.mk "with_" [.list [.text "replies", .text "replies.replies"]] [])
      (.blank Members.subjectPost.source .null) = .ok .self askedReplies := by rfl
  exact .called (.new rfl) ran

/-- The replies are loaded although they have been cancelled, for the sake of the replies to them. If these
are cancelled, they are not loaded. -/
theorem replies_outlive_their_cancelling :
    askedReplies.Arises Members.subjectPost ∧
    (∃ after, Members.twoPosts.toEnv.call (.mk "without" [.text "replies"] []) askedReplies =
        .ok .self after ∧
      ∃ sent page t, Runs Eq (after.get .null) Members.twoPosts sent (.ok page) t ∧
        t.Loaded page.members ["replies"]) ∧
    ∃ after, Members.twoPosts.toEnv.call (.mk "without" [.text "replies.replies"] []) askedReplies =
        .ok .self after ∧
      ∀ sent r t, Runs Eq (after.get .null) Members.twoPosts sent r t → ∃ own xs u stops,
        after.Executed .null Members.subjectPost ["replies"] Members.twoPosts sent r t own xs u stops ∧
        ∀ s ∈ stops, ¬ ["replies", "replies"] <+: s.path := by
  have ready : Loader.Ready oneByOne [] [0, 1] Members.subjectPost [] Members.twoPosts :=
    Loader.ready_replies (List.forall_mem_nil _) (List.forall_mem_nil _)
  have cancels (path : String) : ∃ after,
      Members.twoPosts.toEnv.call (.mk "without" [.text path] []) askedReplies = .ok .self after ∧
        askedReplies.CancelledByName after .null Members.subjectPost Members.twoPosts
          ["replies", "replies.replies"] [path] (["replies", "replies.replies"].filter (· ∉ [path])) :=
    final_without_cancels_by_name [.one path] ready.grounded rfl arises_askedReplies rfl .null
  have one : RelationPath.steps "replies" = ["replies"] := by decide +kernel
  have two : RelationPath.steps "replies.replies" = ["replies", "replies"] := by decide +kernel
  refine ⟨arises_askedReplies, ?_, ?_⟩
  · obtain ⟨after, ran, cancelled⟩ := cancels "replies"
    obtain rfl : askedReplies.cancelling ["replies"] = after := by
      injection (Build.call_without Members.twoPosts.toEnv rfl [.one "replies"]).symm.trans ran
    rw [show ["replies", "replies.replies"].filter (· ∉ ["replies"]) = ["replies.replies"] by decide +kernel]
      at cancelled
    obtain ⟨sent, r, runs, -, ends⟩ := Loader.runs_shown postsAndReply
      (made_get (askedReplies.cancelling ["replies"]) .null) Members.twoPosts
      fun page => .bool !page.members.isEmpty
    have some_ : (Schedule.finish ((((askedReplies.cancelling ["replies"]).get .null >>=
        fun page => pure (.bool !page.members.isEmpty)) .done).answered
          fun r => Act.ofExcept (postsAndReply r)) Members.twoPosts).1.toOption.any
            (·.same (.bool true)) = true := by decide +kernel
    rw [ends] at some_
    cases r with
    | error e => cases some_
    | ok page =>
      obtain ⟨own, xs, u, stops, executed, each⟩ := cancelled.loads (List.forall_mem_singleton.mpr
        (straight_replies rfl rfl (by decide +kernel))) sent _ _ runs
      obtain ⟨rfl, -⟩ := executed.page page rfl
      have loaded := (each "replies" (.head _)).2
      rw [one] at loaded
      refine ⟨_, ran, sent, page, _, runs, loaded ?_ ⟨page, rfl⟩ fun none => ?_⟩
      · exact ⟨"replies.replies", .head _, by decide +kernel⟩
      · have told : (Value.bool !page.members.isEmpty).same (.bool true) = true := some_
        rw [show page.members = [] from none] at told
        exact absurd told (by decide)
  · obtain ⟨after, ran, cancelled⟩ := cancels "replies.replies"
    obtain rfl : askedReplies.cancelling ["replies.replies"] = after := by
      injection (Build.call_without Members.twoPosts.toEnv rfl [.one "replies.replies"]).symm.trans ran
    rw [show ["replies", "replies.replies"].filter (· ∉ ["replies.replies"]) = ["replies"] by decide +kernel]
      at cancelled
    refine ⟨_, ran, fun sent r t runs => ?_⟩
    obtain ⟨own, xs, u, stops, executed, each⟩ := cancelled.loads (List.forall_mem_singleton.mpr
      (straight_replies rfl rfl (by decide +kernel))) sent r t runs
    have apart := (each "replies.replies" (.head _)).1
    rw [two] at apart
    exact ⟨own, xs, u, stops, executed, apart (List.forall_mem_singleton.mpr (by decide +kernel))⟩

end Query

end Relata
