import Mathlib.Data.List.Sort
import Relata.Loading.Shared
import Relata.Proofs.Loading.Grouped
import Relata.Proofs.Process.Beside
import Relata.Proofs.Registry.Marks
import Relata.Proofs.Store.Slots

/-!
A call that loads relations on an object and on all that were fetched with it, followed up to the
load that it shares with others, and from the outcome of that load on.
-/

namespace Relata

open Act (Glides)

theorem Deed.glides_changeMarks {τ : Type} {runner : Request → Deed τ (List Row)} {α : Type}
    (w : World τ) (registry : RegistryId) (f : Marks → Marks × Except Error α) :
    (changeMarks registry f).Glides runner w (f (w.registryOf registry).marks).2
      (w.remarked registry (f (w.registryOf registry).marks).1) :=
  (Glides.modifyGet _).bind (Glides.ofExcept _)

/-- A call to load relations on an object and on all that were fetched with it. -/
structure ForAll where
  self : ObjectId
  relations : Value
  given : Value

namespace ForAll

variable {τ : Type} {runner : Request → Deed τ (List Row)}

def deed (c : ForAll) : Deed τ Value := do
  Deed.loadForAll c.self c.relations c.given
  return .object c.self

/-- What a call does once it is told the outcome of the load. -/
def received (c : ForAll) (names : List String) (outcome : Except Error Value) :
    Process (World τ) :=
  (do
    Deed.receive c.self names (← Act.ofExcept outcome)
    return .object c.self : Deed τ Value) .done

/-- Paths in the order in which they stand in a key. -/
def ordered (paths : List String) : List String := paths.mergeSort fun a b => !(b < a)

theorem ordered_eq_of_perm {paths others : List String} (h : paths.Perm others) :
    ordered paths = ordered others := by
  have sorted (paths : List String) : (ordered paths).Pairwise (· ≤ ·) := by
    refine (List.pairwise_mergeSort (fun a b c h h' => ?_) (fun a b => ?_) paths).imp fun h => ?_
    · simp only [Bool.not_eq_true', decide_eq_false_iff_not, String.not_lt] at *
      exact String.le_trans h h'
    · simpa only [Bool.or_eq_true, Bool.not_eq_true', decide_eq_false_iff_not, String.not_lt] using
        String.le_total a b
    · simpa only [Bool.not_eq_true', decide_eq_false_iff_not, String.not_lt] using h
  refine (((List.mergeSort_perm paths _).trans h).trans
    (List.mergeSort_perm others _).symm).eq_of_pairwise ?_ (sorted paths) (sorted others)
  exact fun _ _ _ _ => String.le_antisymm

/-- The first segments of paths are names. -/
theorem segments_text (paths : List String) :
    Deed.segments (paths.map .text) = .ok ((RelationPath.group paths).map (·.1)) := by
  have read {cut : Value → Except Error String} (texts : ∀ path, cut (.text path) = .ok path) :
      (paths.map Value.text).mapM cut = .ok paths := by
    induction paths with
    | nil => rfl
    | cons path rest ih =>
      rw [List.map_cons, List.mapM_cons, ih, texts]
      rfl
  rw [Deed.segments, read fun _ => rfl]
  rfl

/-- What a call asks for, and the object that it is made on. -/
structure Reads (c : ForAll) (w : World τ) (r : LoadRequest) (names : List String)
    (own : Entity) : Prop where
  request : Deed.request w.toEnv c.relations = .ok r
  names : Deed.segments r.paths = .ok names
  own : w.object? c.self = some own

/-- The objects that were fetched with this one, if any. -/
def members (w : World τ) (own : Entity) : List Value :=
  (own.collection.map w.collectionOf).getD []

/-- The objects that a call loads relations on. -/
def targets (c : ForAll) (w : World τ) (own : Entity) : List Value :=
  if (members w own).isEmpty then [.object c.self] else members w own

variable {c : ForAll} {w w' w'' : World τ} {r : LoadRequest} {names : List String} {own : Entity}
  {registry : RegistryId} {key : Value}

/-- A call for relations that are not known to be loaded comes to sharing a load. -/
theorem Reads.glides (h : c.Reads w r names own)
    (unknown : (Deed.knownOn own (c.targets w own) names c.given).Glides runner w (.ok false) w')
    (at_ : Deed.registryId c.given = .ok registry)
    (under : (Deed.flightKey own (members w own) r.paths).Glides runner w' (.ok key) w') :
    Process.Glides runner (c.deed .done) w
      (Deed.coordinate registry key (Deed.loadTargets r c.given registry (c.targets w own) names)
        (c.received names)) w' := by
  have asks : (Act.getsExcept fun w : World τ => Deed.request w.toEnv c.relations).Glides runner w
      (.ok r) w := h.request ▸ Glides.getsExcept _
  have cuts : (Act.ofExcept (Deed.segments r.paths) : Deed τ _).Glides runner w (.ok names) w :=
    h.names ▸ Glides.ofExcept _
  have finds {f : World τ → Except Error Entity} (found : f w = .ok own) :
      (Act.getsExcept f).Glides runner w (.ok own) w := found ▸ Glides.getsExcept f
  have names_ : (Act.ofExcept (Deed.registryId c.given) : Deed τ _).Glides runner w' (.ok registry)
      w' := at_ ▸ Glides.ofExcept _
  refine Glides.then_ asks (Glides.then_ cuts (Glides.then_ (finds (by rw [h.own]))
    (Glides.then_ (Glides.gets _) (Glides.then_ unknown (Glides.then_ names_
      (Glides.then_ under ?_))))))
  refine Eq.subst (motive := fun p => Process.Glides runner p w' _ w') ?_ (.refl _ w')
  refine congrArg (Deed.coordinate registry key _) (funext fun outcome => ?_)
  cases outcome <;> rfl

/-- Among several objects the first one decides what is known to be loaded. -/
theorem glides_knownOn {first second : Value} {rest : List Value} (own : Entity) (given : Value)
    (lacks : ∃ name ∈ names, w.isLoadedOn (.text name) first = false) :
    (Deed.knownOn own (first :: second :: rest) names given).Glides runner w (.ok false) w := by
  have unloaded : (names.all fun name => w.isLoadedOn (.text name) first) = false := by
    simpa using lacks
  have reads := @Glides.gets _ _ runner w fun w : World τ => names.all fun name => w.isLoadedOn (.text name) first
  rw [unloaded] at reads
  exact fun next => Glides.then_ reads (.refl _ w)

/-- A load on the members of a collection goes by the collection and the paths, in no order. -/
theorem glides_flightKey {members : List Value} {id : CollectionId} (of : own.collection = some id)
    (some_ : members ≠ []) (paths : List Value) :
    (Deed.flightKey own members paths).Glides runner w
      (.ok (Flights.collectionKey id (ordered (paths.map (·.shown))))) w := by
  obtain ⟨_, _, rfl⟩ := List.exists_cons_of_ne_nil some_
  unfold Deed.flightKey
  rw [of]
  exact .pure _

/-- An object on its own is known by the marks of its row. -/
theorem glides_knownOn_alone {own : Entity} {given target : Value} {registry : RegistryId}
    (at_ : Deed.registryId given = .ok registry) (keyed : w.key own.id = .ok own.id)
    (some_ : own.id.isNull = false)
    (lacks : ∃ name ∈ names, ¬ (w.registryOf registry).marks.Marked ⟨.model own.model, own.id⟩
      (.text name)) :
    (Deed.knownOn own [target] names given).Glides runner w (.ok false)
      (w.remarked registry ((w.registryOf registry).marks.isLoaded ⟨.model own.model, own.id⟩
        ((names.map Value.text).map .ok)).1) := by
  have texts : (names.map fun name => (.ok (.text name) : Except Error Value)) =
      (names.map Value.text).map .ok := by rw [List.map_map]; rfl
  have finds : (Deed.registryId given |> Act.ofExcept : Deed τ _).Glides runner w (.ok registry) w :=
    at_ ▸ Glides.ofExcept _
  have reads : (Act.getsExcept fun w : World τ => w.key own.id).Glides runner w (.ok own.id) w :=
    keyed ▸ Glides.getsExcept _
  have asks := @Deed.glides_changeMarks _ runner _ w registry fun m =>
    m.isLoaded ⟨.model own.model, own.id⟩ ((names.map Value.text).map .ok)
  rw [Marks.isLoaded_of_lacks some_ (by simpa using lacks)] at asks
  unfold Deed.knownOn
  rw [texts]
  exact finds.bind (reads.bind asks)

/-- A load on an object outside of collections goes by its row and the paths. -/
theorem glides_flightKey_alone (outside : own.collection = none) (members : List Value)
    (keyed : w.key own.id = .ok own.id) (paths : List Value) :
    (Deed.flightKey own members paths).Glides runner w
      (.ok (Flights.rowKey ⟨.model own.model, own.id⟩ (ordered (paths.map (·.shown))))) w := by
  have reads : (Act.getsExcept fun w : World τ => w.key own.id).Glides runner w (.ok own.id) w :=
    keyed ▸ Glides.getsExcept _
  unfold Deed.flightKey
  rw [outside]
  exact reads.bind (.pure _)

/-- A call whose object has taken everything over by itself ends at once. -/
theorem glides_received {loaded : Value}
    (complete : ∀ name ∈ names, w.isLoadedOn (.text name) (.object c.self) = true) :
    Process.Glides runner (c.received names (.ok loaded)) w (.done (.ok (.object c.self))) w := by
  have all : (names.all fun name => w.isLoadedOn (.text name) (.object c.self)) = true :=
    List.all_eq_true.mpr complete
  have reads := @Glides.gets _ _ runner w fun w : World τ => names.all fun name => w.isLoadedOn (.text name) (.object c.self)
  rw [all] at reads
  have takes : (Deed.receive c.self names loaded).Glides runner w (.ok ()) w :=
    fun next => Glides.then_ reads (.refl _ w)
  exact takes _

/-- A call whose object lacks something takes it over. -/
theorem glides_received_lacking {others : List Value}
    (lacks : ∃ name ∈ names, w.isLoadedOn (.text name) (.object c.self) = false)
    (takes : (Deed.copyFrom c.self others names).Glides runner w (.ok ()) w') :
    Process.Glides runner (c.received names (.ok (.list others))) w
      (.done (.ok (.object c.self))) w' := by
  have incomplete : (names.all fun name => w.isLoadedOn (.text name) (.object c.self)) = false := by
    simpa using lacks
  have reads := @Glides.gets _ _ runner w fun w : World τ => names.all fun name => w.isLoadedOn (.text name) (.object c.self)
  rw [incomplete] at reads
  have receives : (Deed.receive c.self names (.list others)).Glides runner w (.ok ()) w' :=
    fun next => Glides.then_ reads (takes next)
  exact receives _

end ForAll

end Relata
