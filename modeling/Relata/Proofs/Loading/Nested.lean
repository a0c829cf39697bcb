import Relata.Proofs.Loading.Prefixes
import Relata.Proofs.Loading.Tours

/-!
Nested paths. A load of dotted paths on objects of one class is a tour of their prefixes: by induction on
how deep the load may nest, and on the first segments that the paths are grouped under.
-/

namespace Relata

open Act (Runs Carries)
open Deed (Made)
open RelationPath (before Begins Enters)

namespace Loader

variable {τ : Type} {loader : Loader} {depth : Nat}

/-- The relations down a path from a model, each with the segments above it and the model that has it,
satisfy `P`, as far as it is known beforehand what they lead to. -/
def Along (l : Lookup) (P : List String → Model → String → Descriptor → Prop) :
    List String → Model → List String → Prop
  | _, _, [] => True
  | above, m, name :: rest => ∀ d, l.require m (.text name) = .ok d → P above m name d ∧
      ∀ related, l.relatedModel d = .ok related → Along l P (above ++ [name]) related rest

theorem Along.of_start {l : Lookup} {P : List String → Model → String → Descriptor → Prop}
    {p q : List String} (part : p <+: q) {above : List String} {m : Model} (h : Along l P above m q) :
    Along l P above m p := by
  induction p generalizing above m q with
  | nil => trivial
  | cons name rest ih =>
    obtain ⟨q, rfl⟩ := part
    exact fun d found => (h d found).imp_right fun on_ related leads =>
      ih (List.prefix_append rest q) (on_ related leads)

/-- The relations down a path lead to models that are known beforehand, and the queries for them ask for
no relations in turn. -/
def Straight (loader : Loader) (l : Lookup) : List String → Model → List String → Prop :=
  Along l fun above m name d => d.kind ≠ .morphTo ∧ loader.Flat l d m (before above ++ name)

theorem made_loadRelation (objects : List Value) (name : String) (at_ : Position) :
    Made (τ := τ) World.Grows (loadRelation (below depth) loader objects name at_) :=
  (@Manner.Pends.loadRelation τ _ 0 loader _ Deed.loads_making.pends depth tends_making objects trivial
    (fun _ _ => trivial) name at_).1

theorem made_children (objects : List Value) (name : String) :
    Made (τ := τ) World.Grows (children objects name) :=
  (@Manner.Loads.children _ _ Deed.loads_making 0 objects (fun _ _ => trivial) name).1

theorem made_loadName {f : Descriptor → List Value → Deed τ Unit}
    (made : ∀ d found, Made World.Grows (f d found)) (objects : List Value) (at_ : Position)
    (name : String) (nested : List String) :
    Made World.Grows (loadName (below depth) f loader objects at_ name nested) := by
  refine (made_loadRelation objects name at_).bind fun found => ?_
  cases found with
  | none => exact .pure ()
  | some d =>
    dsimp only
    split
    · refine (made_children objects name).bind fun found => ?_
      split
      · exact made d found
      · exact .pure ()
    · exact .pure ()

theorem rooted_begins (paths : List String) : Rooted (Begins paths) := fun p want => by
  obtain ⟨name, q, rfl⟩ := List.exists_cons_of_ne_nil want.1
  exact ⟨name, q, rfl, RelationPath.begins_head want⟩

theorem rooted_enters (g : String × List String) : Rooted (Enters g) := by
  rintro p (rfl | ⟨q, rfl, -⟩)
  · exact ⟨g.1, [], rfl, .inl rfl⟩
  · exact ⟨g.1, q, rfl, .inl rfl⟩

/-- Objects of one class, which hold none of the relations that paths begin with. -/
structure Ready (loader : Loader) (above : List String) (xs : List ObjectId) (m : Model)
    (paths : List String) (w : World τ) : Prop where
  grounded : w.catalog.Grounded
  model : ∀ id ∈ xs, w.modelOfValue? (.object id) = some m
  bare : ∀ path ∈ paths, ':' ∉ path.toList
  straight : ∀ path ∈ paths, loader.Straight w.toLookup above m (RelationPath.steps path)
  lack : ∀ id ∈ xs, ∀ name, Begins paths [name] → w.valueOf id name = none

/-- The same, for one group of paths. -/
structure Entered (loader : Loader) (above : List String) (xs : List ObjectId) (m : Model)
    (g : String × List String) (w : World τ) : Prop where
  grounded : w.catalog.Grounded
  some_ : xs ≠ []
  model : ∀ id ∈ xs, w.modelOfValue? (.object id) = some m
  bare : ∀ path ∈ g.2, ':' ∉ path.toList
  straight : ∀ d, w.require m (.text g.1) = .ok d → d.kind ≠ .morphTo ∧
    loader.Flat w.toLookup d m (before above ++ g.1) ∧
    ∀ related, w.relatedModel d = .ok related → ∀ path ∈ g.2,
      loader.Straight w.toLookup (above ++ [g.1]) related (RelationPath.steps path)
  lack : ∀ id ∈ xs, w.valueOf id g.1 = none

variable {above : List String} {xs : List ObjectId} {m : Model} {paths : List String}
  {g : String × List String} {w t : World τ} {sent : Dialogue}

theorem Ready.entered (h : Ready loader above xs m paths w) (some_ : xs ≠ []) (there : g ∈ RelationPath.group paths) :
    Entered loader above xs m g w := by
  have nests := RelationPath.nests_group paths g there
  obtain ⟨path, hpath, own⟩ := RelationPath.head_of_mem_group there
  refine ⟨h.grounded, some_, h.model, fun rest hrest => ?_, fun d found => ?_, fun id own => ?_⟩
  · obtain ⟨path, hpath, -, rfl, -⟩ := nests rest hrest
    exact RelationPath.not_mem_rest (h.bare path hpath)
  · have first := h.straight path hpath
    rw [RelationPath.steps_eq, ← own] at first
    refine ⟨(first d found).1.1, (first d found).1.2, fun related leads rest hrest => ?_⟩
    obtain ⟨path, hpath, own, rfl, some_⟩ := nests rest hrest
    have straight := h.straight path hpath
    rw [RelationPath.steps_eq, own, if_neg some_] at straight
    exact (straight d found).2 related leads
  · exact h.lack id own g.1 (RelationPath.begins_iff_enters.mpr ⟨g, there, .inl rfl⟩)

theorem Entered.later (h : Entered loader above xs m g w) (grows : w.Grows t)
    (lack : ∀ id ∈ xs, t.valueOf id g.1 = none) : Entered loader above xs m g t where
  grounded := grows.lookup ▸ h.grounded
  some_ := h.some_
  model id there := grows.modelOfValue? (h.model id there)
  bare := h.bare
  straight := grows.lookup ▸ h.straight
  lack := lack

/-- A load of paths on objects that are ready for it is a tour of the prefixes. -/
def Toured (loader : Loader) (depth : Nat) (τ : Type) : Prop :=
  ∀ {above : List String} {xs : List ObjectId} {m : Model} {paths : List String} {w t : World τ}
    {sent : Dialogue} {r : Except Error Unit}, Ready loader above xs m paths w →
    Carries (loadBelow depth loader (xs.map .object) (paths.map .text) ⟨before above, false⟩) w sent r t →
    ∃ stops, sent = stops.flatMap (·.sent) ∧
      Tour loader above xs (Begins paths) w t stops (r = .ok ())

/-- What is nested under one segment, loaded on what its relation leads to. -/
def further (loader : Loader) (depth : Nat) (above : List String) (g : String × List String)
    (d : Descriptor) (found : List Value) : Deed τ Unit :=
  loadBelow depth loader found (g.2.map .text) ⟨before above ++ g.1 ++ ".", d.kind == .morphTo⟩

section Onward

/-! What comes behind the visit of a relation. -/

variable {d : Descriptor} {v : World τ} {r : Except Error Unit} (ih : Toured loader depth τ)
  (required : w.require m (.text g.1) = .ok d) (h : Entered loader above xs m g w)
  (alters : w.Alters xs g.1 v) (visit : Visit loader d m (before above ++ g.1) g.1 xs w v sent)
include h alters visit

/-- The relation leads to new objects, which hold nothing yet. -/
theorem onward_of_visit {o : ObjectId} (there : o ∈ v.onward xs g.1) :
    (∃ related, w.relatedModel d = .ok related ∧ v.modelOfValue? (.object o) = some related) ∧
      ∀ name, v.valueOf o name = none := by
  obtain ⟨id, own, x, value, among⟩ := World.mem_onward.mp there
  obtain ⟨y, value', objects⟩ := visit.leads h.grounded id own
  obtain rfl := Option.some.inj (value.symm.trans value')
  obtain ⟨_, same, new, related⟩ := objects _ (Value.mem_leads.mp among)
  obtain rfl := Value.object.inj same
  refine ⟨related, fun name => ?_⟩
  have away : o ∉ xs := fun own =>
    absurd (World.lt_size_of_modelOfValue? (h.model o own)) (Nat.not_lt_of_le new)
  rw [World.valueOf_of_slotsOf (alters.apart o away), World.valueOf_eq_none new]

include ih required

theorem tours_onward {later : Dialogue}
    (carries : Carries (if !g.2.isEmpty then do
      let found ← children (xs.map .object) g.1
      if !found.isEmpty then loader.further depth above g d found
    else (pure () : Deed τ Unit)) v later r t) :
    ∃ more, later = more.flatMap (·.sent) ∧
      Tour loader (above ++ [g.1]) (v.onward xs g.1) (Begins g.2) v t more (r = .ok ()) := by
  obtain ⟨fixed, -, straight⟩ := h.straight d required
  have next {o : ObjectId} (there : o ∈ v.onward xs g.1) := onward_of_visit h alters visit there
  by_cases ends : g.2 = []
  · -- Nothing is nested here.
    rw [if_neg (by simp [ends])] at carries
    obtain ⟨rfl, -, rfl⟩ := carries.silent (.ofExcept (.ok ()) v)
    refine ⟨[], rfl, .idle (fun o there name _ => (next there).2 name) fun _ p want => ?_⟩
    obtain ⟨-, path, there, -⟩ := want
    rw [ends] at there
    cases there
  rw [if_pos (by simpa using ends)] at carries
  have holds : ∀ id ∈ xs, ∃ x, v.valueOf id g.1 = some x ∧ ∀ y ∈ x.held, ∃ o, y = .object o :=
    fun id own => by
      obtain ⟨x, value, objects⟩ := visit.leads h.grounded id own
      exact ⟨x, value, fun y there => (objects y there).imp fun _ own => own.1⟩
  obtain ⟨e, rfl, followed, -⟩ | ⟨_, last, found, u, rfl, followed, -, goes⟩ :=
    (made_children _ _).of_bind carries
  · obtain ⟨-, absurd, -⟩ := carries_children holds followed.carries
    cases absurd
  obtain ⟨rfl, same, here⟩ := carries_children holds followed.carries
  obtain rfl := Except.ok.inj same
  rw [here] at goes
  by_cases none : v.onward xs g.1 = []
  · -- The relation leads to no objects.
    rw [none] at goes ⊢
    obtain ⟨rfl, -, rfl⟩ := goes.silent (.ofExcept (.ok ()) v)
    exact ⟨[], rfl, .idle (List.forall_mem_nil _) fun _ p _ => World.level_nil _ _⟩
  · obtain ⟨o, some_⟩ := List.exists_mem_of_ne_nil _ none
    obtain ⟨⟨related, known, -⟩, -⟩ := next some_
    rw [if_pos (by simpa using none), further, show (d.kind == .morphTo) = false by simpa using fixed,
      ← RelationPath.before_concat] at goes
    refine ih (m := related) ⟨alters.grows.lookup ▸ h.grounded, fun o there => ?_, h.bare, fun path there => ?_,
      fun o there name _ => (next there).2 name⟩ goes
    · obtain ⟨⟨_, known', own⟩, -⟩ := next there
      rwa [Except.ok.inj (known.symm.trans known')]
    · rw [alters.grows.lookup]
      exact straight related known path there

end Onward

theorem tours_loadName {r : Except Error Unit} (ih : Toured loader depth τ)
    (h : Entered loader above xs m g w)
    (carries : Carries (loadName (below depth) (loader.further depth above g) loader (xs.map .object)
      ⟨before above, false⟩ g.1 g.2) w sent r t) :
    ∃ stops, sent = stops.flatMap (·.sent) ∧ Tour loader above xs (Enters g) w t stops (r = .ok ()) := by
  have straight : ∀ d, w.require m (.text g.1) = .ok d → d.kind ≠ .morphTo ∧
      loader.Flat w.toLookup d m (before above ++ g.1) := fun d found =>
    ⟨(h.straight d found).1, (h.straight d found).2.1⟩
  obtain ⟨e, rfl, runs, -⟩ | ⟨first, later, found, v, rfl, runs, -, rest⟩ :=
    (made_loadRelation _ _ _).of_bind carries
  · have failed : ¬ (Except.error e : Except Error Unit) = .ok () := by simp
    obtain ⟨-, -, rfl, rfl⟩ | ⟨d, required, alters, ⟨absurd, -⟩ | ⟨-, came⟩⟩ :=
      runs_loadRelation h.some_ h.model h.lack straight runs.carries
    · -- The model has no such relation.
      refine ⟨[], rfl, .idle (fun id own name want => ?_) fun ended => absurd ended failed⟩
      obtain rfl : name = g.1 := by
        obtain same | ⟨q, same, -⟩ := want <;> exact (List.cons.inj same).1
      exact h.lack id own
    · cases absurd
    · -- The load of the relation has failed.
      refine ⟨_, (List.append_nil _).symm, (Tour.visited h.some_ h.grounded h.model h.lack required alters
        (came.imp_right fun same => ⟨id, same⟩)).widen failed (fun p => .inl) ?_⟩
      rintro id - name (same | ⟨q, same, -⟩) other
      · exact absurd same other
      · exact absurd (by rw [(List.cons.inj same).1]) other
  · obtain ⟨e, absurd, -⟩ | ⟨d, required, alters, ⟨same, visit⟩ | ⟨⟨_, absurd⟩, -⟩⟩ :=
      runs_loadRelation h.some_ h.model h.lack straight runs.carries
    · cases absurd
    · obtain rfl := Except.ok.inj same
      obtain ⟨more, rfl, second⟩ := tours_onward ih required h alters visit rest
      have reached : Tour loader above xs (· = [g.1]) w v [⟨[g.1], xs, first⟩] True :=
        .visited h.some_ h.grounded h.model h.lack required alters (.inl visit)
      exact ⟨_, by simp [List.flatMap_map, Stop.below], reached.under second (rooted_begins _)
        fun id there => World.lt_size_of_modelOfValue? (h.model id there)⟩
    · cases absurd

theorem enters_singleton {name : String} (h : Enters g [name]) : name = g.1 := by
  obtain same | ⟨q, same, -⟩ := h <;> exact (List.cons.inj same).1

/-- From one first segment to the next. -/
theorem tours_groups {r : Except Error Unit} (ih : Toured loader depth τ)
    {gs : List (String × List String)} (once : (gs.map (·.1)).Nodup)
    (ready : ∀ g ∈ gs, Entered loader above xs m g w) (present : ∀ id ∈ xs, id < w.objects.size)
    (carries : Carries (gs.forM fun g => loadName (below depth) (loader.further depth above g) loader
      (xs.map .object) ⟨before above, false⟩ g.1 g.2) w sent r t) :
    ∃ stops, sent = stops.flatMap (·.sent) ∧
      Tour loader above xs (fun p => ∃ g ∈ gs, Enters g p) w t stops (r = .ok ()) := by
  induction gs generalizing w sent with
  | nil =>
    obtain ⟨rfl, rfl, rfl⟩ := carries.silent (.ofExcept (.ok ()) w)
    refine ⟨[], rfl, .idle (fun _ _ _ want => ?_) fun _ _ want => ?_⟩
    all_goals
      obtain ⟨_, absurd, -⟩ := want
      cases absurd
  | cons g rest next =>
    obtain ⟨other, once⟩ := List.nodup_cons.mp once
    have rooted : Rooted fun p => ∃ g ∈ rest, Enters g p := fun p ⟨g, there, want⟩ => by
      obtain ⟨name, q, same, want⟩ := rooted_enters g p want
      exact ⟨name, q, same, g, there, want⟩
    have apart : ∀ name, Enters g [name] → ¬ ∃ g' ∈ rest, Enters g' [name] :=
      fun name want ⟨g', there, want'⟩ => other <| List.mem_map.mpr
        ⟨g', there, (enters_singleton want').symm.trans (enters_singleton want)⟩
    have either : (fun p => ∃ g' ∈ g :: rest, Enters g' p) =
        fun p => Enters g p ∨ ∃ g' ∈ rest, Enters g' p := funext fun p => by simp
    rw [either]
    have made : Made (τ := τ) World.Grows (loadName (below depth) (loader.further depth above g) loader
        (xs.map .object) ⟨before above, false⟩ g.1 g.2) :=
      made_loadName (f := loader.further depth above g) (fun _ _ => made_loadBelow _ _ _ _ _) _ _ _ _
    obtain ⟨e, rfl, runs, -⟩ | ⟨first, later, _, v, rfl, runs, grows, others⟩ := made.of_bind carries
    · -- The first of them has failed.
      obtain ⟨stops, same, tour⟩ := tours_loadName ih (ready g (.head _)) runs.carries
      have failed : ¬ (Except.error e : Except Error Unit) = .ok () := by simp
      rw [eq_false failed] at tour
      refine ⟨stops, same, tour.widen failed (fun p => .inl) fun id own name want away => ?_⟩
      rw [tour.aside (rooted_enters g) present own away]
      obtain ⟨g', there, want⟩ := want.resolve_left away
      rw [enters_singleton want]
      exact (ready g' (.tail _ there)).lack id own
    · obtain ⟨stops, rfl, tour⟩ := tours_loadName ih (ready g (.head _)) runs.carries
      rw [eq_true (rfl : (Except.ok () : Except Error Unit) = .ok ())] at tour
      have lack : ∀ g' ∈ rest, ∀ id ∈ xs, v.valueOf id g'.1 = none := fun g' there id own => by
        rw [tour.aside (rooted_enters g) present own fun want => apart _ want ⟨g', there, .inl rfl⟩]
        exact (ready g' (.tail _ there)).lack id own
      obtain ⟨more, rfl, tour'⟩ := next once
        (fun g' there => (ready g' (.tail _ there)).later grows (lack g' there))
        (fun id own => (present id own).trans_le tour.size) others
      exact ⟨stops ++ more, by simp, tour.append tour' rooted apart present (rooted_enters g)⟩

/-- However deep the paths go, a load is a tour of their prefixes. -/
theorem toured (loader : Loader) (depth : Nat) : Toured loader depth τ := by
  induction depth with
  | zero =>
    intro above xs m paths w t sent r ready carries
    obtain ⟨rfl, rfl, rfl⟩ := carries.silent (.ofExcept (.error .tooDeep) w)
    exact ⟨[], rfl, .idle ready.lack fun absurd => by cases absurd⟩
  | succ depth ih =>
    intro above xs m paths w t sent r ready carries
    have one : ∀ v ∈ xs.map Value.object, v.isNull = false ∧ classKey w.toEnv v = .model m.id :=
      List.forall_mem_map.mpr fun id there => by
        obtain ⟨e, stands, known⟩ := Option.bind_eq_some_iff.mp (ready.model id there)
        refine ⟨rfl, ?_⟩
        rw [classKey, stands, ready.grounded.numbered _ _ known]
    by_cases some_ : xs = []
    · -- There are no objects that anything could be loaded on.
      subst some_
      rw [List.map_nil, loadBelow, mapM_parse_of_bare ready.bare] at carries
      obtain ⟨rfl, -, rfl⟩ := carries.silent (Runs.bind (.ofExcept _ w) (.bind (.getsExcept
        (fun w => .ok (byClass w.toEnv [])) w) (.ofExcept (.ok ()) w)))
      exact ⟨[], rfl, .idle (List.forall_mem_nil _) fun _ p _ => World.level_nil _ _⟩
    have walks := carries.reads (reads_loadBelow_of_bare ready.bare (by simpa using some_) one)
    have begins : Begins paths = fun p => ∃ g ∈ RelationPath.group paths, Enters g p :=
      funext fun p => propext RelationPath.begins_iff_enters
    rw [begins]
    exact tours_groups ih (RelationPath.nodup_group paths) (fun g there => ready.entered some_ there)
      (fun id there => World.lt_size_of_modelOfValue? (ready.model id there)) walks

end Loader

end Relata
