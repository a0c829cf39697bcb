import Relata.Loading.Shared
import Relata.Proofs.Process.Within
import Relata.Proofs.Registry.Flights
import Relata.Proofs.Store.Slots

/-!
Calling for a load: what a task does that calls for the load of a key. If a load for the key is in
flight the task waits for it; otherwise it starts one, files it under the key and waits for that one,
which releases the key when it ends.
-/

namespace Relata

open Process (Within begin)

namespace World

variable {τ : Type}

/-- The loads in flight in a registry, if there is such a registry. -/
def flights? (w : World τ) (registry : RegistryId) : Option Flights :=
  (w.registries[registry]?).map (·.flights)

/-- The same loads are in flight in a registry as before. -/
def SameFlights (registry : RegistryId) (w w' : World τ) : Prop :=
  w'.flights? registry = w.flights? registry

def changeFlights (registry : RegistryId) (f : Flights → Flights) (w : World τ) : World τ :=
  { w with registries := w.registries.modify registry fun r => { r with flights := f r.flights } }

/-- The registry without marks and loads in flight. -/
def clearRegistry (registry : RegistryId) (w : World τ) : World τ :=
  { w with registries :=
      w.registries.modify registry fun r => { marks := r.marks.clear, flights := .empty } }

@[simp] theorem flights?_changeFlights (registry : RegistryId) (f : Flights → Flights)
    (w : World τ) : (w.changeFlights registry f).flights? registry =
      (w.flights? registry).map f := by
  simp [flights?, changeFlights, Array.getElem?_modify, Function.comp_def]

@[simp] theorem flights?_clearRegistry (registry : RegistryId) (w : World τ) :
    (w.clearRegistry registry).flights? registry =
      (w.flights? registry).map fun _ => .empty := by
  simp [flights?, clearRegistry, Array.getElem?_modify, Function.comp_def]

@[simp] theorem marks_changeFlights (w : World τ) (registry other : RegistryId)
    (f : Flights → Flights) : ((w.changeFlights registry f).registryOf other).marks =
      (w.registryOf other).marks := by
  unfold changeFlights Env.registryOf
  dsimp only
  rw [Array.getElem?_modify]
  split
  · cases w.registries[other]? <;> rfl
  · rfl

/-- Marks are kept beside the loads in flight. -/
theorem sameFlights_remarked (w : World τ) (registry : RegistryId) (marks : Marks)
    (other : RegistryId) : w.SameFlights other (w.remarked registry marks) := by
  unfold SameFlights flights? remarked
  dsimp only
  rw [Array.getElem?_setIfInBounds]
  split
  · next own =>
    subst own
    split
    · next inside => simp [Env.registryOf, inside]
    · next outside => simp [outside]
  · rfl

theorem flights_registryOf {w : World τ} {registry : RegistryId} {f : Flights}
    (h : w.flights? registry = some f) : (w.registryOf registry).flights = f := by
  obtain ⟨r, there, rfl⟩ := Option.map_eq_some_iff.mp h
  simp [Env.registryOf, there]

end World

namespace Deed

variable {τ : Type} {α : Type}

/-- A task that calls for a load and goes on with its outcome. -/
def calling (runner : Request → Deed τ (List Row)) (registry : RegistryId) (key : Value)
    (load : Deed τ Value) (next : Except Error Value → Process (World τ)) : Process (World τ) :=
  (coordinate registry key load next).answered runner

/-- The task that carries out a load. -/
def carrying (runner : Request → Deed τ (List Row)) (registry : RegistryId) (key : Value)
    (load : Deed τ Value) (self : TaskId) : Process (World τ) :=
  (load.always (modifyRegistry registry fun r =>
    { r with flights := r.flights.release key self }) .done).answered runner

/-- The last piece of a task that carries out a load: it releases the key and ends. -/
def releasing (registry : RegistryId) (key : Value) (self : TaskId) (r : Except Error Value) :
    Process (World τ) :=
  .get fun w => .set (w.changeFlights registry (·.release key self)) (.done r)

variable {runner : Request → Deed τ (List Row)} {registry : RegistryId} {key : Value}
  {load : Deed τ Value} {next : Except Error Value → Process (World τ)}

/-- A call looks for its key, and joins the task that it finds there or starts one. -/
theorem calling_eq : calling runner registry key load next = .get fun w =>
    match (w.registryOf registry).flights.find? key with
    | some task => .join task fun r => (next r).answered runner
    | none => .spawn (carrying runner registry key load) fun task =>
        .get fun w => .set (w.changeFlights registry (·.start key task))
          (.join task fun r => (next r).answered runner) := by
  rw [calling, coordinate]
  refine congrArg Process.get (funext fun w => ?_)
  change Process.answered runner ((match (w.registryOf registry).flights.find? key with
    | some task => _
    | none => _ : Deed τ Value) _) = _
  cases (w.registryOf registry).flights.find? key <;> rfl

/-- Whoever calls for a load that is in flight waits for its task. -/
theorem drive_calling_of_find {s : Schedule (World τ)} {t : TaskId}
    (found : (s.state.registryOf registry).flights.find? key = some t) (caller : TaskId) :
    Schedule.drive caller (calling runner registry key load next) s =
      Schedule.drive caller (.join t fun r => (next r).answered runner) s := by
  rw [calling_eq, Schedule.drive, found]

end Deed

namespace Schedule

variable {τ : Type} {registry : RegistryId} {key : Value}

/-- A new task has started another one, filed it under a key and waits for it. -/
def launched (registry : RegistryId) (key : Value) (body : TaskId → Process (World τ))
    (next : Except Error Value → Process (World τ)) (s : Schedule (World τ)) :
    Schedule (World τ) :=
  let caller := s.outcomes.size
  { state := s.state.changeFlights registry (·.start key (caller + 1))
    queue := s.queue ++ [.run (caller + 1) (.ok ()) (begin (body (caller + 1)))]
    outcomes := (s.outcomes.push none).push none
    waiting := s.waiting ++ [(caller + 1, ⟨caller, next⟩)] }

variable {body : TaskId → Process (World τ)} {next : Except Error Value → Process (World τ)}

/-- Whoever calls for a load that is not in flight starts it. -/
theorem drive_calling_of_none {runner : Request → Deed τ (List Row)} {load : Deed τ Value}
    {s : Schedule (World τ)}
    (absent : (s.state.registryOf registry).flights.find? key = none) :
    drive s.outcomes.size (Deed.calling runner registry key load next)
        { s with outcomes := s.outcomes.push none } =
      s.launched registry key (Deed.carrying runner registry key load)
        fun r => (next r).answered runner := by
  have starts : ∀ (r : Schedule (World τ)) (caller : TaskId), r.state = s.state →
      drive caller (Deed.calling runner registry key load next) r =
        { state := r.state.changeFlights registry (·.start key r.outcomes.size)
          queue := r.queue ++ [.run r.outcomes.size (.ok ())
            (begin (Deed.carrying runner registry key load r.outcomes.size))]
          outcomes := r.outcomes.push none
          waiting := r.waiting ++
            [(r.outcomes.size, ⟨caller, fun r => (next r).answered runner⟩)] } := by
    intro r caller same
    rw [Deed.calling_eq, drive, same, absent]
    simp only [drive_spawn]
    simp [drive, enqueue, same]
  refine (starts { s with outcomes := s.outcomes.push none } s.outcomes.size rfl).trans ?_
  simp only [launched, Array.size_push]

theorem open_launched (s : Schedule (World τ)) :
    (s.launched registry key body next).Open (s.outcomes.size + 1) := by
  have last : s.outcomes.size + 1 = (s.outcomes.push none).size := by simp
  rw [Open, last]
  exact Array.getElem?_push_size

theorem placed_launched {s : Schedule (World τ)} (h : s.Placed []) :
    (s.launched registry key body next).Placed [] := by
  have both : Placed [s.outcomes.size + 1, s.outcomes.size]
      { s with outcomes := (s.outcomes.push none).push none } := by
    simpa using h.push.push
  let first : Turn (World τ) :=
    .run (s.outcomes.size + 1) (.ok ()) (begin (body (s.outcomes.size + 1)))
  have pending : (s.launched registry key body next).Open (s.outcomes.size + 1) := open_launched s
  have waits := @Placed.join _ _ s.outcomes.size (s.outcomes.size + 1) [] next
    (@Placed.enqueue _ _ _ first both) (congrArg Option.join pending)
  exact ⟨waits.1, waits.2, waits.3⟩

theorem spares_launched (s : Schedule (World τ)) :
    s.Spares s.outcomes.size (s.launched registry key body next) :=
  .of_kept (fun _ => List.mem_append_left _) (fun _ => List.mem_append_left _)
    (fun u lt => by simp [launched, Array.getElem?_push, Nat.ne_of_lt lt,
      Nat.ne_of_lt (Nat.lt_succ_of_lt lt)]) (by simp [launched]; omega)

theorem settled_of_launched {s : Schedule (World τ)} {t : TaskId} {outcome : Except Error Value}
    (lt : t < s.outcomes.size) (h : (s.launched registry key body next).Settled t outcome) :
    s.Settled t outcome := by
  rcases open_or_settled lt with isOpen | ⟨before, settled⟩
  · exact absurd ((spares_launched s).stays (Nat.ne_of_lt lt) isOpen) h.not_open
  · exact ((spares_launched s).settled settled).unique h ▸ settled

end Schedule

end Relata
