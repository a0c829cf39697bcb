import Relata.Proofs.Loading.Coalesced

/-!
Objects whose calls do not share a load. Instances of a row that were fetched each for itself are
each alone in a collection, and calls on them go by their collections: every one of them starts a load
of its own. Objects outside of collections go by their rows, and copies of a row take over what the
load of one of them has attached; objects without an identifier go by one key as well, but take
nothing over.
-/

namespace Relata

theorem Value.eq_of_same_collection {id : CollectionId} {v : Value}
    (h : (Value.collection id).same v = true) : v = .collection id := by
  cases v with
  | collection other => exact congrArg Value.collection (eq_of_beq h).symm
  | _ => cases h

namespace Flights

/-- A key that has nothing in common with another one. -/
def Apart (k key : Value) : Prop := ∀ v, k.same v = true → key.same v = false

/-- A key of a collection is equal to keys of that collection only. -/
theorem collection_of_same {id : CollectionId} {paths : List String} {v : Value}
    (h : (collectionKey id paths).same v = true) :
    ∃ first rest, v = .tuple (first :: .collection id :: rest) := by
  cases v with
  | tuple items =>
    match items, h with
    | [_], h => cases (Bool.and_eq_true_iff.mp h).2
    | first :: second :: rest, h =>
      have items := (Bool.and_eq_true_iff.mp h).2
      have same := (Bool.and_eq_true_iff.mp items).1
      obtain rfl := Value.eq_of_same_collection same
      exact ⟨first, rest, rfl⟩
  | _ => cases h

theorem apart_collectionKey {id other : CollectionId} (different : id ≠ other)
    (paths more : List String) : Apart (collectionKey id paths) (collectionKey other more) := by
  intro v same
  refine Bool.eq_false_iff.mpr fun also_ => different ?_
  obtain ⟨first, rest, rfl⟩ := collection_of_same same
  obtain ⟨_, _, equal⟩ := collection_of_same also_
  exact Value.collection.inj (List.cons.inj (List.cons.inj (Value.tuple.inj equal)).2).1

variable {k key : Value}

/-- What is started under a key leaves those that are apart from it. -/
theorem find?_start_of_apart (apart : Apart k key) (own : key.same key = true) (f : Flights)
    (t : TaskId) : (f.start key t).find? k = f.find? k := by
  have other : k.same key = false := by
    refine Bool.eq_false_iff.mpr fun same => ?_
    rw [apart key same] at own
    cases own
  have kept (entries : List (Value × TaskId)) :
      Value.lookup? k (Value.drop entries key) = Value.lookup? k entries := by
    induction entries with
    | nil => rfl
    | cons e rest ih =>
      unfold Value.drop at ih ⊢
      by_cases same : k.same e.1 = true
      · simp [apart e.1 same, Value.lookup?, same]
      · by_cases dropped : key.same e.1 = true
        · simpa [dropped, Value.lookup?, same] using ih
        · simpa [dropped, Value.lookup?, same] using ih
  simp [find?, start, Matches.lookup?_append, kept, Value.lookup?, other]

end Flights

namespace Value

theorem Twin.apart {k key other : Value} (twin : k.Twin key) (apart : Flights.Apart other key) :
    Flights.Apart other k := fun v same => (twin.agree v).trans (apart v same)

end Value

namespace Fellows

variable {τ : Type} {registry : RegistryId} {runner : Request → Deed τ (List Row)}
  {x : Joint τ ForAll} {g : Fellows τ} {c : ForAll} {asking : List (Fellows τ × ForAll)}

/-- Calls that arrive one after the other, each for objects of its own. -/
def arriveAll (runner : Request → Deed τ (List Row)) (asking : List (Fellows τ × ForAll))
    (x : Joint τ ForAll) : Joint τ ForAll :=
  asking.foldl (fun x (g, c) => x.arrive (g.sharing runner) c) x

/-- Others have left the objects alone and have marked nothing for them. -/
def Untouched (g : Fellows τ) (w w' : World τ) : Prop :=
  Scene.Apart { g.toScene with sole := True } w w'

/-- Calls on objects that are each alone in a collection and lack a relation, while nothing is in
flight for any of them; each is what it is as long as its object is left alone. -/
structure Instances (registry : RegistryId) (asking : List (Fellows τ × ForAll))
    (x : Joint τ ForAll) : Prop where
  shared : ∀ p ∈ asking, p.1.registry = registry
  stands : ∀ p ∈ asking, p.1.Stands
  bare : ∀ p ∈ asking, p.1.Bare
  alone : ∀ p ∈ asking, ∃ id, p.1.bond = .alone id
  apart : asking.Pairwise fun p q => p.1.home ≠ q.1.home
  lacking : ∀ p ∈ asking, ∃ done, p.1.Open done x.schedule.state
  free : ∀ p ∈ asking, x.schedule.state.inFlight? registry p.1.key = some none
  fits : ∀ p ∈ asking, ∀ w, p.1.Untouched x.schedule.state w → p.1.Fits p.2 w

theorem apart_key {other : Fellows τ} {id id' : CollectionId} (bond : g.bond = .alone id)
    (bond' : other.bond = .alone id') (apart : other.home ≠ g.home) :
    Flights.Apart other.key g.key := by
  rw [Fellows.key, Fellows.key, bond, bond']
  refine Flights.apart_collectionKey (fun same => apart ?_) _ _
  rw [Fellows.home, Fellows.home, bond, bond', same]

/-- The first of the calls starts a load, and leaves the others as they are. -/
theorem Instances.step (h : Instances registry ((g, c) :: asking) x)
    (runner : Request → Deed τ (List Row)) :
    (∃ r asked, g.Starts runner x c r asked) ∧
      Instances registry asking (x.arrive (g.sharing runner) c) := by
  obtain ⟨id, bond⟩ := h.alone _ (.head _)
  obtain ⟨done, opened⟩ := h.lacking _ (.head _)
  have own := h.shared (g, c) (.head _)
  obtain ⟨r, asked, starts⟩ := opened.starts (h.stands _ (.head _)) runner
    (own ▸ h.free _ (.head _)) (h.fits _ (.head _) _ (.refl _))
  refine ⟨⟨r, asked, starts⟩, ?_⟩
  obtain ⟨-, k, w', twin, consulted, launched⟩ := starts
  have state : (x.arrive (g.sharing runner) c).schedule.state =
      w'.changeFlights g.registry (·.start k (x.schedule.outcomes.size + 1)) := by
    rw [launched]
    rfl
  refine ⟨fun p hp => h.shared p (.tail _ hp), fun p hp => h.stands p (.tail _ hp),
    fun p hp => h.bare p (.tail _ hp), fun p hp => h.alone p (.tail _ hp),
    (List.pairwise_cons.mp h.apart).2, fun p hp => ?_, fun p hp => ?_,
    fun p hp w later => h.fits p (.tail _ hp) w (.trans ?_ later)⟩
  · obtain ⟨done, opened⟩ := h.lacking p (.tail _ hp)
    have at_ : p.1.registry = g.registry := (h.shared p (.tail _ hp)).trans own.symm
    refine ⟨done, ?_, opened.more⟩
    rw [state]
    exact Scene.Kin.filed (opened.kin.apart (consulted.apart p.1.toScene at_)) g.registry _
  · obtain ⟨id', bond'⟩ := h.alone p (.tail _ hp)
    have apart := apart_key bond bond' fun same =>
      (List.pairwise_cons.mp h.apart).1 p hp same.symm
    have free := h.free p (.tail _ hp)
    obtain ⟨f, there, none⟩ := Option.map_eq_some_iff.mp free
    have later : w'.flights? g.registry = some f := (consulted.flights _).trans (own ▸ there)
    rw [state, World.inFlight?, ← own, World.flights?_changeFlights, later]
    simpa [Flights.find?_start_of_apart (twin.apart apart) twin.own] using none
  · rw [state]
    exact (consulted.apart { p.1.toScene with sole := True }
      ((h.shared p (.tail _ hp)).trans own.symm)).trans (Scene.apart_filed _ _ _)

/-- Every one of the calls starts a load: by induction on those before it. -/
theorem Instances.starts (h : Instances registry asking x) (runner : Request → Deed τ (List Row))
    {before after : List (Fellows τ × ForAll)} (whole : asking = before ++ (g, c) :: after) :
    ∃ r asked, g.Starts runner (arriveAll runner before x) c r asked := by
  induction before generalizing asking x with
  | nil =>
    subst whole
    exact (h.step runner).1
  | cons p before ih =>
    subst whole
    exact ih (h.step runner).2 rfl

/-- Instances that were fetched each for itself share no load: each of the calls on them starts one,
which fetches each relation once for its instance alone. Beside the loads for the others, a call that
returns leaves the relations loaded on its own instance. -/
theorem instances_load_apart (h : Instances registry asking x)
    (answers : ∀ p ∈ asking, (p.1.sharing runner).Answers) :
    (∀ before g c after, asking = before ++ (g, c) :: after → ∃ r asked,
      g.Starts runner (arriveAll runner before x) c r asked ∧ g.targets c.self = [c.self] ∧
        g.FetchesOnce runner c r asked) ∧
    ∀ p ∈ asking, p.1.names ≠ [] → p.1.start.inFlight? registry p.1.key = some none →
      ∀ y, Joint.Reached (p.1.sharing runner) p.1.start y → ∀ call ∈ y.calls, ∀ v,
        y.schedule.Settled call.task (.ok v) → v = .object call.what.self ∧
          ∀ name ∈ p.1.names, y.schedule.state.isLoadedOn (.text name) (.object call.what.self) = true := by
  refine ⟨fun before g c after whole => ?_, fun p hp some_ free y reached call hc v returns => ?_⟩
  · have there : (g, c) ∈ asking := whole ▸ List.mem_append_right _ (.head _)
    obtain ⟨r, asked, starts⟩ := h.starts runner whole
    obtain ⟨id, bond⟩ := h.alone _ there
    have fits := h.fits _ there _ (.refl _)
    exact ⟨r, asked, starts, by rw [Fellows.targets, bond],
      fun w begins => (h.stands _ there).meets_loadTargets (h.bare _ there) fits.member fits.registry
        starts.1 begins⟩
  · have stands := h.stands p hp
    have free : p.1.start.inFlight? p.1.registry p.1.key = some none := h.shared p hp ▸ free
    obtain ⟨_, outcome, settled, past, served⟩ :=
      (reached.sound (stands.lawful some_ (answers p hp)) (Scene.stage_start stands.proper)
        free).served hc returns
    cases outcome with
    | error e => cases served
    | ok loaded =>
      obtain ⟨same, -, all⟩ := served
      exact ⟨Except.ok.inj same, all⟩

/-- A post that is alone in a collection. -/
def foundPost (collection : CollectionId) : Entity := { singlePost with collection := some collection }

/-- Two instances of one post, each found for itself; either may be marked by whoever loads the
other. -/
def instanceOf (i : Nat) : Fellows Unit where
  registry := 0
  objects := [i]
  start := { twoCopies.start with objects := #[foundPost 0, foundPost 1], collections := #[[0], [1]] }
  sole := False
  names := ["replies"]
  bond := .alone i

def bothInstances : List (Fellows Unit × ForAll) :=
  [(instanceOf 0, repliesOf 0), (instanceOf 1, repliesOf 1)]

theorem own_instanceOf {i : Nat} (inside : i < 2) {id : ObjectId} (member : id ∈ (instanceOf i).objects) :
    (instanceOf i).start.object? id = some (foundPost i) := by
  obtain rfl := List.mem_singleton.mp member
  rcases Nat.le_one_iff_eq_zero_or_eq_one.mp (Nat.lt_succ_iff.mp inside) with rfl | rfl
  · rfl
  · rfl

theorem stands_instanceOf {i : Nat} (inside : i < 2) : (instanceOf i).Stands := by
  have same {id : ObjectId} (member : id ∈ (instanceOf i).objects) {e : Entity}
      (there : (instanceOf i).start.object? id = some e) : e = foundPost i :=
    Option.some.inj (there.symm.trans (own_instanceOf inside member))
  refine ⟨⟨fun id member => ⟨_, own_instanceOf inside member, .int 1, rfl, fun _ => rfl⟩,
      Nat.zero_lt_one, rfl⟩, stands_twoCopies.named,
    ⟨0, fun id member e there => same member there ▸ rfl⟩,
    fun id member e there => same member there ▸ rfl, ?_, rfl, ?_⟩
  · rcases Nat.le_one_iff_eq_zero_or_eq_one.mp (Nat.lt_succ_iff.mp inside) with rfl | rfl
    · rfl
    · rfl
  · rintro _ ⟨id, member, e, there, rfl⟩
    obtain rfl := same member there
    exact ⟨rfl, fun absurd => absurd.elim⟩

theorem bare_instanceOf {i : Nat} (inside : i < 2) : (instanceOf i).Bare := fun id member name _ => by
  simp [Scene.Lacks, Env.isLoadedOn, own_instanceOf inside member, foundPost, singlePost,
    Entity.isLoaded, Entity.value?, Entity.slot?, Value.lookup?]

/-- A call on an instance is what it is while nothing has marked its row. -/
theorem fits_instanceOf {i : Nat} {w : World Unit}
    (still : (instanceOf i).Untouched (instanceOf i).start w) :
    (instanceOf i).Fits (repliesOf i) w := by
  refine ⟨.head _, .inr fun row own => ⟨"replies", .head _, fun marked => ?_⟩, rfl,
    ⟨[.text "replies"], [], []⟩, ["replies"], rfl, rfl, .refl _, False.elim⟩
  obtain ⟨_, absurd, _⟩ := Scene.Apart.marks still trivial row own "replies" marked
  cases absurd

theorem bothInstances_are : Instances 0 bothInstances
    ⟨⟨(instanceOf 0).start, [], #[], []⟩, []⟩ where
  shared := by simp [bothInstances, instanceOf]
  stands p hp := by
    rcases List.mem_pair.mp hp with rfl | rfl
    · exact stands_instanceOf Nat.zero_lt_two
    · exact stands_instanceOf Nat.one_lt_two
  bare p hp := by
    rcases List.mem_pair.mp hp with rfl | rfl
    · exact bare_instanceOf Nat.zero_lt_two
    · exact bare_instanceOf Nat.one_lt_two
  alone := by simp [bothInstances, instanceOf]
  apart := by simp [bothInstances, instanceOf, home]
  lacking p hp := by
    have opened {i : Nat} (inside : i < 2) : (instanceOf i).Open [] (instanceOf i).start :=
      ⟨(Scene.stage_start (stands_instanceOf inside).proper).weaken (fun _ _ own => own.2.1)
        (fun _ _ absurd => absurd.elim) fun _ own => own, "replies", .head _, List.not_mem_nil⟩
    rcases List.mem_pair.mp hp with rfl | rfl
    · exact ⟨[], opened Nat.zero_lt_two⟩
    · exact ⟨[], opened Nat.one_lt_two⟩
  free p hp := by
    rcases List.mem_pair.mp hp with rfl | rfl <;> rfl
  fits p hp w still := by
    rcases List.mem_pair.mp hp with rfl | rfl
    · exact fits_instanceOf still
    · exact fits_instanceOf still

/-- Each instance has a load of its own, and the second call does not wait for the first. -/
theorem two_loads : ∃ r asked, (instanceOf 1).Starts Members.shelf
    (arriveAll Members.shelf [(instanceOf 0, repliesOf 0)]
      ⟨⟨(instanceOf 0).start, [], #[], []⟩, []⟩) (repliesOf 1) r asked := by
  obtain ⟨r, asked, starts, -⟩ := (instances_load_apart bothInstances_are fun _ _ => answers_shelf).1
    [(instanceOf 0, repliesOf 0)] (instanceOf 1) (repliesOf 1) [] rfl
  exact ⟨r, asked, starts⟩

end Fellows

end Relata
