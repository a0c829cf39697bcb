import Relata.Proofs.Loading.Launch

/-!
Calls that share loads, as a step relation. A caller arrives with a key and a load of its own; any
turn of the queue is taken, so that tasks take their first steps, go on, settle and are told
outcomes in any order; a task is cancelled; the registry is cleared; and other tasks begin, which
leave the loads in flight alone. Beside the schedule it is written down who called for which key and
which task carries out the load of that call, which tasks have taken a step, which were cancelled,
and whether the registry has been cleared.
-/

namespace Relata

open Process (Within begin)

namespace Deed

variable {τ : Type} {α : Type} {runner : Request → Deed τ (List Row)} {registry : RegistryId}
  {key : Value} {load : Deed τ Value}

/-- A deed that comes to a result whatever happens meanwhile, and leaves the loads in flight alone. -/
def Apart (registry : RegistryId) (x : Deed τ α) : Prop :=
  ∀ last, Within (World.SameFlights registry) last (x last)

/-- How a task ends that carries out the load of a key, or none. -/
def closing (registry : RegistryId) (key : Option Value) (self : TaskId) :
    Except Error Value → Process (World τ) :=
  match key with
  | some key => releasing registry key self
  | none => .done

theorem within_carrying (answers : ∀ r, (runner r).Apart registry) (apart : load.Apart registry)
    (self : TaskId) : Within (World.SameFlights registry) (releasing registry key self)
      (carrying runner registry key load self) :=
  Within.answered (apart (releasing registry key self)) answers

end Deed

namespace Schedule

variable {τ : Type} {registry : RegistryId} {key : Value} {body : TaskId → Process (World τ)}

theorem orderly_launched {G : World τ → World τ → Prop} {roles : Roles (World τ)}
    {s : Schedule (World τ)} (h : s.Orderly G roles) (caller : ¬ roles.young s.outcomes.size)
    (last : roles.last s.outcomes.size = .done) (young : roles.young (s.outcomes.size + 1))
    (within : Within G (roles.last (s.outcomes.size + 1)) (body (s.outcomes.size + 1))) :
    (s.launched registry key body .done).Orderly G roles := by
  let first : Turn (World τ) :=
    .run (s.outcomes.size + 1) (.ok ()) (begin (body (s.outcomes.size + 1)))
  have begins : first.Follows G roles := ⟨by simp, .inr ⟨young, _, within, rfl⟩⟩
  have waits := @Orderly.wait _ _ _ _ s.outcomes.size (s.outcomes.size + 1) .done
    (h.enqueue begins) ⟨caller, fun r => last ▸ .ends _ r⟩
  exact ⟨waits.queue, waits.waiting⟩

end Schedule

/-- Who called, for which key, and the task that carries out the load for the call: the one found
under the key, or the one started. -/
structure Traffic.Caller where
  task : TaskId
  key : Value
  load : TaskId

/-- A schedule with what is written down of its past. -/
structure Traffic (τ : Type) where
  schedule : Schedule (World τ)
  callers : List Traffic.Caller
  /-- The tasks that have taken a step of their own. -/
  begun : List TaskId
  cancelled : List TaskId
  cleared : Bool

namespace Traffic

variable {τ : Type} {runner : Request → Deed τ (List Row)} {registry : RegistryId}

/-- The task that carries out the load of a key, if one is in flight. -/
def inFlight? (registry : RegistryId) (x : Traffic τ) (key : Value) : Option TaskId :=
  (x.schedule.state.registryOf registry).flights.find? key

theorem inFlight?_eq {x : Traffic τ} {f : Flights}
    (h : x.schedule.state.flights? registry = some f) (key : Value) :
    x.inFlight? registry key = f.find? key := by rw [inFlight?, World.flights_registryOf h]

/-- A new task takes its first step. -/
def enter (x : Traffic τ) (p : Process (World τ)) : Traffic τ :=
  let task := x.schedule.outcomes.size
  { x with
    schedule := Schedule.drive task p
      { x.schedule with outcomes := x.schedule.outcomes.push none }
    begun := task :: x.begun }

/-- A caller arrives with a key and a load. -/
def arrive (runner : Request → Deed τ (List Row)) (registry : RegistryId) (x : Traffic τ)
    (key : Value) (load : Deed τ Value) : Traffic τ :=
  let task := x.schedule.outcomes.size
  { x.enter (Deed.calling runner registry key load .done) with
    callers := x.callers ++ [⟨task, key, (x.inFlight? registry key).getD (task + 1)⟩] }

/-- A turn is taken. A task that was cancelled before it began does not begin with it. -/
def turned (x : Traffic τ) (turn : Turn (World τ)) (schedule : Schedule (World τ)) : Traffic τ :=
  { x with
    schedule := schedule
    begun := match turn with
      | .run t (.ok _) _ => t :: x.begun
      | _ => x.begun }

def cancel (x : Traffic τ) (t : TaskId) : Traffic τ :=
  { x with schedule := x.schedule.cancel t, cancelled := t :: x.cancelled }

def clear (registry : RegistryId) (x : Traffic τ) : Traffic τ :=
  { x with
    schedule := { x.schedule with state := x.schedule.state.clearRegistry registry }
    cleared := true }

/-- One step. Keys can be keys of a table and equal themselves. -/
inductive Step (runner : Request → Deed τ (List Row)) (registry : RegistryId) :
    Traffic τ → Traffic τ → Prop
  | arrive (x : Traffic τ) {key : Value} {load : Deed τ Value} : key.isKey = true →
    key.same key = true → load.Apart registry →
      Step runner registry x (x.arrive runner registry key load)
  | turn {x : Traffic τ} {turn : Turn (World τ)} {schedule : Schedule (World τ)} :
    x.schedule.Takes turn schedule → Step runner registry x (x.turned turn schedule)
  | cancel (x : Traffic τ) (t : TaskId) : Step runner registry x (x.cancel t)
  | clear (x : Traffic τ) : Step runner registry x (x.clear registry)
  | other (x : Traffic τ) {p : Process (World τ)} :
    Within (World.SameFlights registry) Process.done p → Step runner registry x (x.enter p)

/-- What any number of steps leads to, from a world in which nothing runs and no load is in flight
in the registry. -/
inductive Reached (runner : Request → Deed τ (List Row)) (registry : RegistryId) :
    Traffic τ → Prop
  | start {w : World τ} : w.flights? registry = some .empty →
    Reached runner registry ⟨⟨w, [], #[], []⟩, [], [], [], false⟩
  | step {x y : Traffic τ} : Reached runner registry x → Step runner registry x y →
    Reached runner registry y

/-- The key whose load a task carries out. -/
def keyOf? (x : Traffic τ) (t : TaskId) : Option Value :=
  (x.callers.find? (·.load == t)).map (·.key)

/-- What is known of each task: those that carry out a load end by releasing its key. -/
def roles (registry : RegistryId) (x : Traffic τ) : Roles (World τ) where
  last t := Deed.closing registry (x.keyOf? t) t
  young t := t ∉ x.begun
  stopped t := t ∈ x.cancelled

/-- A caller has been told the outcome of its load, or waits for it. -/
def Told (s : Schedule (World τ)) (c : Caller) : Prop :=
  s.Awaits c.task c.load .done ∨ ∃ outcome, s.Settled c.load outcome ∧ s.Settled c.task outcome

/-- What the table of loads in flight holds. -/
structure Listed (x : Traffic τ) (f : Flights) : Prop where
  /-- A task found under a key carries out a load for that key. -/
  own : ∀ {k t}, k.isKey = true → f.find? k = some t →
    ∃ c ∈ x.callers, c.load = t ∧ k.same c.key = true
  /-- It has not settled, unless it was cancelled before it began. -/
  due : ∀ {k t}, k.isKey = true → f.find? k = some t → x.schedule.Open t ∨ t ∉ x.begun
  /-- A load that has not settled, or was cancelled before it began, is found under its key. -/
  kept : x.cleared = false → ∀ c ∈ x.callers, x.schedule.Open c.load ∨ c.load ∉ x.begun →
    f.find? c.key = some c.load

/-- What holds after any number of steps. -/
structure Sound (registry : RegistryId) (x : Traffic τ) : Prop where
  placed : x.schedule.Placed []
  orderly : x.schedule.Orderly (World.SameFlights registry) (x.roles registry)
  keys : ∀ c ∈ x.callers, c.key.isKey = true ∧ c.key.same c.key = true
  known : ∀ t ∈ x.begun, t < x.schedule.outcomes.size
  tasks : ∀ c ∈ x.callers, c.task < x.schedule.outcomes.size ∧
    c.load < x.schedule.outcomes.size
  /-- A caller carries out no load. -/
  apart : ∀ c ∈ x.callers, ∀ c' ∈ x.callers, c.load ≠ c'.task
  agree : ∀ c ∈ x.callers, ∀ c' ∈ x.callers, c.load = c'.load → c.key.same c'.key = true
  listed : ∃ f, x.schedule.state.flights? registry = some f ∧ x.Listed f
  told : ∀ c ∈ x.callers, c.task ∉ x.cancelled → Told x.schedule c
  /-- A load that settled without having begun was cancelled. -/
  stillborn : ∀ c ∈ x.callers, ∀ outcome, x.schedule.Settled c.load outcome →
    c.load ∉ x.begun → c.load ∈ x.cancelled ∧ outcome = .error .cancelled

/-- What a turn of the task `t` amounts to. If `t` carries out a load and settles, it takes its own
key out of the table, unless it was cancelled before it began. -/
structure Moves (registry : RegistryId) (t : TaskId) (x y : Traffic τ) : Prop where
  placed : y.schedule.Placed []
  orderly : y.schedule.Orderly (World.SameFlights registry) (y.roles registry)
  callers : y.callers = x.callers
  cancelled : y.cancelled = x.cancelled
  cleared : y.cleared = x.cleared
  begun : ∀ u ∈ x.begun, u ∈ y.begun
  begins : ∀ u ∈ y.begun, u ∈ x.begun ∨ u = t
  here : t < y.schedule.outcomes.size
  spares : ∀ {u outcome}, x.schedule.Settled u outcome → y.schedule.Settled u outcome
  stays : ∀ {u}, u ≠ t → x.schedule.Open u → y.schedule.Open u
  size : x.schedule.outcomes.size ≤ y.schedule.outcomes.size
  flights :
    (World.SameFlights registry x.schedule.state y.schedule.state ∧
      ∀ c ∈ x.callers, c.load = t → ∀ outcome, y.schedule.Settled t outcome →
        t ∉ y.begun ∧ t ∈ x.cancelled ∧ outcome = .error .cancelled) ∨
    ∃ c ∈ x.callers, c.load = t ∧ t ∈ y.begun ∧ (∃ outcome, y.schedule.Settled t outcome) ∧
      y.schedule.state.flights? registry =
        (x.schedule.state.flights? registry).map (·.release c.key t)
  told : ∀ c ∈ x.callers, c.task ∉ x.cancelled → Told y.schedule c

theorem Moves.open_before {t : TaskId} {x y : Traffic τ} (m : Moves registry t x y) {u : TaskId}
    (lt : u < x.schedule.outcomes.size) (after : y.schedule.Open u) : x.schedule.Open u := by
  rcases Schedule.open_or_settled lt with isOpen | ⟨outcome, settled⟩
  · exact isOpen
  · exact absurd after (m.spares settled).not_open

/-- The table after the turn of a task that carries out a load: only the key of a load that has
settled is gone. -/
theorem Sound.listed_of_moves {t : TaskId} {x y : Traffic τ} (h : Sound registry x)
    (m : Moves registry t x y) : ∃ f, y.schedule.state.flights? registry = some f ∧ y.Listed f := by
  obtain ⟨f, there, listed⟩ := h.listed
  have due : ∀ {k u}, k.isKey = true → f.find? k = some u → u ≠ t →
      y.schedule.Open u ∨ u ∉ y.begun := fun hk found apart =>
    (listed.due hk found).imp (m.stays apart) fun young old =>
      (m.begins _ old).elim young apart
  have kept : y.cleared = false → ∀ c ∈ y.callers, y.schedule.Open c.load ∨ c.load ∉ y.begun →
      f.find? c.key = some c.load := fun unclear c hc still => by
    rw [m.callers] at hc
    refine listed.kept (m.cleared ▸ unclear) c hc (still.imp ?_ fun young old => ?_)
    · exact m.open_before (h.tasks c hc).2
    · exact young (m.begun _ old)
  rcases m.flights with ⟨same, early⟩ | ⟨c, hc, rfl, begun, ⟨outcome, settled⟩, released⟩
  · refine ⟨f, same.trans there, ⟨fun hk found => ?_, fun {k u} hk found => ?_, kept⟩⟩
    · exact m.callers ▸ listed.own hk found
    · by_cases apart : u = t
      · subst apart
        obtain ⟨c, hc, rfl, _⟩ := listed.own hk found
        rcases Schedule.open_or_settled m.here with isOpen | ⟨outcome, settled⟩
        · exact .inl isOpen
        · exact .inr (early c hc rfl outcome settled).1
      · exact due hk found apart
  · have hkey := (h.keys c hc).1
    refine ⟨_, released.trans (congrArg _ there), ⟨fun {k u} hk found => ?_, fun {k u} hk found => ?_,
      fun unclear c' hc' still => ?_⟩⟩
    · rw [Flights.find?_release hk hkey] at found
      split at found
      · cases found
      · exact m.callers ▸ listed.own hk found
    · rw [Flights.find?_release hk hkey] at found
      split at found
      · cases found
      · next remains =>
        refine due hk found fun apart => remains ?_
        subst apart
        obtain ⟨c', hc', carries, equal⟩ := listed.own hk found
        have agree := Value.same_trans hk equal (h.agree c' hc' c hc carries)
        exact ⟨(Flights.find?_congr hk hkey f agree) ▸ found, agree⟩
    · have found := kept unclear c' hc' still
      rw [m.callers] at hc'
      rw [Flights.find?_release (h.keys c' hc').1 hkey, if_neg, found]
      rintro ⟨own, equal⟩
      rw [Flights.find?_congr (h.keys c' hc').1 hkey f equal, own, Option.some.injEq] at found
      rcases still with isOpen | young
      · exact settled.not_open (found ▸ isOpen)
      · exact young (found ▸ begun)

/-- What holds goes on holding. -/
theorem Sound.moves {t : TaskId} {x y : Traffic τ} (h : Sound registry x)
    (m : Moves registry t x y) : Sound registry y where
  placed := m.placed
  orderly := m.orderly
  keys c hc := h.keys c (m.callers ▸ hc)
  known u hu := (m.begins u hu).elim (fun old => Nat.lt_of_lt_of_le (h.known u old) m.size)
    fun own => own ▸ m.here
  tasks c hc := (h.tasks c (m.callers ▸ hc)).imp (Nat.lt_of_lt_of_le · m.size)
    (Nat.lt_of_lt_of_le · m.size)
  apart c hc c' hc' := h.apart c (m.callers ▸ hc) c' (m.callers ▸ hc')
  agree c hc c' hc' := h.agree c (m.callers ▸ hc) c' (m.callers ▸ hc')
  listed := h.listed_of_moves m
  told c hc going := m.told c (m.callers ▸ hc) (m.cancelled ▸ going)
  stillborn c hc outcome settled young := by
    rw [m.callers] at hc
    rw [m.cancelled]
    rcases Schedule.open_or_settled (h.tasks c hc).2 with isOpen | ⟨before, was⟩
    · have own : c.load = t := Classical.byContradiction fun apart =>
        settled.not_open (m.stays apart isOpen)
      rcases m.flights with ⟨_, early⟩ | ⟨_, _, _, begun, _⟩
      · obtain ⟨_, cancelled, rfl⟩ := early c hc own outcome (own ▸ settled)
        exact ⟨own ▸ cancelled, rfl⟩
      · exact absurd (own ▸ begun) young
    · obtain rfl := (m.spares was).unique settled
      exact h.stillborn c hc _ was fun old => young (m.begun _ old)

/-- A task that ends, goes on or waits: the loads in flight stay, except that a task which carries
out a load releases its key when it settles. -/
theorem flights_of_goes (roles : Roles (World τ)) (key : Option Value) {t : TaskId}
    {rest s : Schedule (World τ)} (old : ¬ roles.young t) (last : roles.last t = Deed.closing registry key t)
    (goes : Schedule.Goes (World.SameFlights registry) roles (roles.last t) t rest s) :
    Schedule.Spares t rest s ∧ s.Placed [] ∧ s.Orderly (World.SameFlights registry) roles ∧
      ((World.SameFlights registry rest.state s.state ∧ (key.isSome → s.Open t)) ∨
        ∃ k, key = some k ∧ (∃ outcome, s.Settled t outcome) ∧
          s.state.flights? registry = (rest.state.flights? registry).map (·.release k t)) := by
  cases goes with
  | @ends s₁ r spares same placed orderly =>
    rw [last]
    cases key with
    | none =>
      refine ⟨spares.trans (.settle placed.is_open r), placed.settle r, orderly.settle t r,
        .inl ⟨same, by simp⟩⟩
    | some k =>
      let released : Schedule (World τ) :=
        { s₁ with state := s₁.state.changeFlights registry (·.release k t) }
      have placed' : released.Placed [t] := ⟨placed.1, placed.2, placed.3⟩
      have orderly' : released.Orderly (World.SameFlights registry) roles := ⟨orderly.1, orderly.2⟩
      have spares' : Schedule.Spares t rest released := spares.trans (.of_state t s₁ _)
      refine ⟨spares'.trans (.settle placed'.is_open r), placed'.settle r, orderly'.settle t r,
        .inr ⟨k, rfl, ⟨r, Schedule.settled_settle placed'.is_open r⟩, ?_⟩⟩
      rw [← same]
      exact World.flights?_changeFlights registry _ s₁.state
  | @pauses s₁ next spares same placed orderly within =>
    refine ⟨spares.trans (.enqueue t s₁ _), Schedule.Placed.enqueue placed,
      orderly.enqueue ⟨by simp, .inl ⟨old, within⟩⟩, .inl ⟨same, fun _ => placed.is_open⟩⟩
  | @waits s₁ other next spares same placed orderly unsettled within =>
    exact ⟨spares.trans (.wait t s₁ _), placed.join unsettled, orderly.wait ⟨old, within⟩,
      .inl ⟨same, fun _ => placed.is_open⟩⟩

theorem keyOf?_eq_none {x : Traffic τ} {t : TaskId} (h : ∀ c ∈ x.callers, c.load ≠ t) :
    x.keyOf? t = none := by
  simpa [keyOf?] using h

theorem exists_of_keyOf? {x : Traffic τ} {t : TaskId} {key : Value} (h : x.keyOf? t = some key) :
    ∃ c ∈ x.callers, c.load = t ∧ c.key = key := by
  obtain ⟨c, found, rfl⟩ := Option.map_eq_some_iff.mp h
  exact ⟨c, List.mem_of_find?_eq_some found, by simpa using List.find?_some found, rfl⟩

theorem isSome_keyOf? {x : Traffic τ} {c : Caller} (h : c ∈ x.callers) :
    (x.keyOf? c.load).isSome := by
  simpa [keyOf?] using ⟨c, h, rfl⟩

/-- New tasks carry out no load yet and have not begun. -/
theorem Sound.plain {x y : Traffic τ} (h : Sound registry x) (callers : y.callers = x.callers)
    {t : TaskId} (begun : ∀ u ∈ y.begun, u ∈ x.begun ∨ u = t) {u : TaskId}
    (new : x.schedule.outcomes.size ≤ u) (apart : t < u) :
    (y.roles registry).last u = Process.done ∧ (y.roles registry).young u := by
  refine ⟨?_, fun old => ?_⟩
  · have absent : y.keyOf? u = none := keyOf?_eq_none fun c hc same => by
      exact absurd (same ▸ (h.tasks c (callers ▸ hc)).2) (Nat.not_lt.mpr new)
    simp [roles, absent, Deed.closing]
  · rcases begun u old with before | rfl
    · exact absurd (h.known u before) (Nat.not_lt.mpr new)
    · exact absurd apart (Nat.lt_irrefl _)

/-- Whoever was told, or waits, still does after the turn of another task. -/
theorem Told.spared {s s' : Schedule (World τ)} {t : TaskId} {c : Caller} (h : Told s c)
    (spares : s.Spares t s') : Told s' c := by
  rcases h with waits | ⟨outcome, settled, own⟩
  · exact .inl (waits.spared spares)
  · exact .inr ⟨outcome, spares.settled settled, spares.settled own⟩

/-- An outcome is carried over to a waiting task. -/
theorem Sound.relays {x : Traffic τ} (h : Sound registry x) {before after : List (Turn (World τ))}
    {w : Waiter (World τ)} {outcome : Except Error Value}
    (taken : x.schedule.queue = before ++ .relay w outcome :: after) :
    Moves registry w.task x (x.turned (.relay w outcome)
      (Schedule.play (.relay w outcome) { x.schedule with queue := before ++ after })) := by
  have running : Schedule.Placed [w.task] { x.schedule with queue := before ++ after } :=
    h.placed.taken taken
  have isOpen : x.schedule.Open w.task := running.is_open
  refine ⟨Schedule.Placed.enqueue running, ?_, rfl, rfl, rfl, fun u hu => hu,
    fun u hu => .inl hu, isOpen.lt, fun settled => settled, fun _ isOpen => isOpen,
    Nat.le_refl _, .inl ⟨rfl, fun c _ _ o settled => ?_⟩, fun c hc going => ?_⟩
  · exact (h.orderly.of_rest taken).enqueue (Schedule.follows_wake (h.orderly.queue (.relay w outcome)
      (by simp [taken])) outcome)
  · exact absurd isOpen (Schedule.Settled.not_open settled)
  · rcases h.told c hc going with waits | ⟨o, settled, own⟩
    · exact .inl (waits.relayed taken)
    · exact .inr ⟨o, settled, own⟩

/-- A task takes a step. -/
theorem Sound.runs {x : Traffic τ} (h : Sound registry x) {before after : List (Turn (World τ))}
    {t : TaskId} {signal : Except Error Unit} {next : Except Error Unit → Process (World τ)}
    (taken : x.schedule.queue = before ++ .run t signal next :: after) :
    Moves registry t x (x.turned (.run t signal next)
      (Schedule.play (.run t signal next) { x.schedule with queue := before ++ after })) := by
  let rest : Schedule (World τ) := { x.schedule with queue := before ++ after }
  let y := x.turned (.run t signal next) (Schedule.drive t (next signal) rest)
  have running : rest.Placed [t] := h.placed.taken taken
  have begun : ∀ u ∈ x.begun, u ∈ y.begun := fun u hu => by
    cases signal <;> simp [y, turned, hu]
  have begins : ∀ u ∈ y.begun, u ∈ x.begun ∨ u = t := fun u hu => by
    cases signal with
    | error e => exact .inl hu
    | ok _ => exact (List.mem_cons.mp hu).symm
  have orderly : rest.Orderly (World.SameFlights registry) (y.roles registry) := by
    refine (h.orderly.of_rest taken).mono (fun u _ => rfl) (fun u stands => ?_)
      fun u _ stopped => stopped
    have apart : u ≠ t := fun own => (List.nodup_cons.mp running.once).1 (own ▸ stands)
    exact not_congr ⟨fun old => (begins u old).elim id fun own => absurd own apart, begun u⟩
  have told : rest.Spares t y.schedule → ∀ c ∈ x.callers, c.task ∉ x.cancelled →
      Told y.schedule c := by
    intro spares c hc going
    rcases h.told c hc going with waits | settled
    · by_cases own : c.task = t
      · rw [own] at waits
        obtain ⟨outcome, settled, woken⟩ := waits.own_turn h.placed
          (by simp [taken] : Turn.run t signal next ∈ x.schedule.queue)
        cases woken
        exact .inr ⟨outcome, spares.settled settled,
          own ▸ Schedule.settled_settle running.is_open outcome⟩
      · exact Told.spared (.inl (waits.taken taken (Ne.symm own))) spares
    · have before : Told rest c := .inr settled
      exact before.spared spares
  have follows : (Turn.run t signal next).Follows (World.SameFlights registry) (x.roles registry) :=
    h.orderly.queue _ (by simp [taken])
  have isOpen : x.schedule.Open t := running.is_open
  change Moves registry t x y
  rcases follows.signalled with ⟨within, early⟩ | ⟨rfl, young, stopped, ends⟩
  · have old : t ∈ y.begun := by
      by_cases earlier : t ∈ x.begun
      · exact begun t earlier
      · simp [y, turned, early earlier]
    have goes := within.drive (fun _ => rfl) (fun one more => more.trans one) running orderly
      fun u new => h.plain (y := y) rfl begins new (Nat.lt_of_lt_of_le isOpen.lt new)
    obtain ⟨spares, placed, ordered, flights⟩ :=
      flights_of_goes (y.roles registry) (y.keyOf? t) (fun young => young old) rfl goes
    refine ⟨placed, ordered, rfl, rfl, rfl, begun, begins,
      Nat.lt_of_lt_of_le isOpen.lt spares.size, spares.settled, spares.stays, spares.size, ?_,
      told spares⟩
    rcases flights with ⟨same, still⟩ | ⟨key, carries, settled, released⟩
    · refine .inl ⟨same, fun c hc own outcome settled => ?_⟩
      exact absurd (still (own ▸ isSome_keyOf? hc)) settled.not_open
    · obtain ⟨c, hc, own, rfl⟩ := exists_of_keyOf? carries
      exact .inr ⟨c, hc, own, old, settled, released⟩
  · have settles : y.schedule = rest.settle t (.error .cancelled) := by
      simp only [y, turned, ends, Schedule.drive]
    have spares : rest.Spares t y.schedule := settles ▸ .settle running.is_open _
    refine ⟨settles ▸ running.settle _, settles ▸ orderly.settle t _, rfl, rfl, rfl,
      begun, begins, Nat.lt_of_lt_of_le isOpen.lt spares.size, spares.settled, spares.stays,
      spares.size, .inl ⟨?_, fun c hc own outcome settled => ⟨young, stopped, ?_⟩⟩, told spares⟩
    · rw [settles]
      rfl
    · rw [settles] at settled
      exact settled.unique (Schedule.settled_settle running.is_open _)

theorem Sound.moves_of_takes {x : Traffic τ} (h : Sound registry x) {turn : Turn (World τ)}
    {s : Schedule (World τ)} (takes : x.schedule.Takes turn s) :
    Moves registry turn.task x (x.turned turn s) := by
  obtain ⟨before, after, taken, rfl⟩ := takes
  cases turn with
  | run t signal next => exact h.runs taken
  | relay w outcome => exact h.relays taken

/-- A new task takes its first step. -/
theorem Sound.enter {x : Traffic τ} (h : Sound registry x) {p : Process (World τ)}
    (within : Within (World.SameFlights registry) Process.done p) : Sound registry (x.enter p) := by
  let t := x.schedule.outcomes.size
  let rest : Schedule (World τ) := { x.schedule with outcomes := x.schedule.outcomes.push none }
  let y := x.enter p
  have running : rest.Placed [t] := h.placed.push
  have begins : ∀ u ∈ y.begun, u ∈ x.begun ∨ u = t := fun u hu => (List.mem_cons.mp hu).symm
  have apart : ∀ u ∈ rest.standing, u ≠ t := fun u stands own =>
    (List.nodup_cons.mp running.once).1 (own ▸ stands)
  have orderly : rest.Orderly (World.SameFlights registry) (y.roles registry) := by
    have before : rest.Orderly (World.SameFlights registry) (x.roles registry) :=
      ⟨h.orderly.queue, h.orderly.waiting⟩
    refine before.mono (fun u _ => rfl) (fun u stands => not_congr ?_) fun u _ stopped => stopped
    exact ⟨fun old => (begins u old).elim id fun own => absurd own (apart u stands), .tail _⟩
  have first : (y.roles registry).last t = Process.done := by
    have absent : y.keyOf? t = none := keyOf?_eq_none fun c hc same => by
      exact absurd (same ▸ (h.tasks c hc).2) (Nat.lt_irrefl _)
    simp [roles, absent, Deed.closing]
  have goes := within.drive (fun _ => rfl) (fun one more => more.trans one) running orderly
    fun u new => by
      have above : t < u := Nat.lt_of_lt_of_le (by simp [rest, t]) new
      exact h.plain (y := y) rfl begins (Nat.le_of_lt above) above
  rw [← first] at goes
  obtain ⟨spares, placed, ordered, flights⟩ :=
    flights_of_goes (y.roles registry) none (fun young => young (.head _)) first goes
  have kept : x.schedule.Spares t y.schedule := (Schedule.Spares.push t x.schedule).trans spares
  refine h.moves (y := y) (t := t) ⟨placed, ordered, rfl, rfl, rfl, fun u => .tail _, begins, ?_, kept.settled,
    kept.stays, kept.size, ?_, fun c hc going => (h.told c hc going).spared kept⟩
  · exact Nat.lt_of_lt_of_le (by simp [rest, t]) spares.size
  · obtain ⟨same, _⟩ | ⟨key, carries, _⟩ := flights
    · refine .inl ⟨same, fun c hc own => ?_⟩
      exact absurd (own ▸ (h.tasks c hc).2) (Nat.lt_irrefl _)
    · cases carries

theorem Sound.cancel {x : Traffic τ} (h : Sound registry x) (t : TaskId) :
    Sound registry (x.cancel t) := by
  have kept : Schedule.Cancels t x.schedule (x.cancel t).schedule :=
    Schedule.cancels_cancel x.schedule t
  have opens : ∀ u, (x.cancel t).schedule.Open u ↔ x.schedule.Open u := fun u => by
    rw [Schedule.Open, kept.outcomes, Schedule.Open]
  have settles : ∀ u o, (x.cancel t).schedule.Settled u o ↔ x.schedule.Settled u o := fun u o => by
    rw [Schedule.Settled, kept.outcomes, Schedule.Settled]
  obtain ⟨f, there, listed⟩ := h.listed
  have orderly : x.schedule.Orderly (World.SameFlights registry) ((x.cancel t).roles registry) :=
    h.orderly.mono (fun _ _ => rfl) (fun _ _ => Iff.rfl) fun _ _ => .tail _
  refine ⟨h.placed.cancel t, orderly.cancel (.head _), h.keys, ?_, ?_, h.apart, h.agree,
    ⟨f, ?_, ⟨listed.own, ?_, ?_⟩⟩, fun c hc going => ?_, fun c hc outcome settled young => ?_⟩
  · rw [kept.outcomes]
    exact h.known
  · rw [kept.outcomes]
    exact h.tasks
  · rw [kept.state]
    exact there
  · exact fun hk found => (listed.due hk found).imp_left (opens _).mpr
  · exact fun unclear c hc still => listed.kept unclear c hc (still.imp_left (opens _).mp)
  · obtain ⟨apart, going⟩ := not_or.mp (going ∘ List.mem_cons.mpr)
    rcases h.told c hc going with waits | ⟨o, settled, own⟩
    · exact .inl (waits.cancelled kept apart)
    · exact .inr ⟨o, (settles _ _).mpr settled, (settles _ _).mpr own⟩
  · exact (h.stillborn c hc outcome ((settles _ _).mp settled) young).imp_left (.tail _)

theorem Sound.clear {x : Traffic τ} (h : Sound registry x) : Sound registry (x.clear registry) := by
  obtain ⟨f, there, _⟩ := h.listed
  have cleared : (x.clear registry).schedule.state.flights? registry = some .empty :=
    (World.flights?_clearRegistry registry _).trans (by rw [there]; rfl)
  have nothing : (x.clear registry).Listed .empty :=
    ⟨fun _ found => (nomatch found), fun _ found => (nomatch found), fun unclear => (nomatch unclear)⟩
  exact ⟨⟨h.placed.1, h.placed.2, h.placed.3⟩, ⟨h.orderly.1, h.orderly.2⟩, h.keys, h.known, h.tasks,
    h.apart, h.agree, ⟨_, cleared, nothing⟩, h.told, h.stillborn⟩

theorem keyOf?_append {x y : Traffic τ} {c : Caller} (h : y.callers = x.callers ++ [c])
    (t : TaskId) : y.keyOf? t = (x.keyOf? t).or (if c.load = t then some c.key else none) := by
  simp only [keyOf?, h, List.find?_append, List.find?_singleton]
  cases x.callers.find? (·.load == t) with
  | some c' => rfl
  | none => by_cases own : c.load = t <;> simp [own]

/-- A caller that joins a load is written down. -/
theorem Sound.joined {x : Traffic τ} (h : Sound registry x) {c c₀ : Caller} (first : c₀ ∈ x.callers)
    (load : c.load = c₀.load) (hkey : c.key.isKey = true) (self : c.key.same c.key = true)
    (equal : c.key.same c₀.key = true) (task : c.task < x.schedule.outcomes.size)
    (apart : ∀ c' ∈ x.callers, c'.load ≠ c.task) (told : Told x.schedule c) :
    Sound registry { x with callers := x.callers ++ [c] } := by
  have hkey₀ := (h.keys c₀ first).1
  have either : ∀ {P : Caller → Prop}, (∀ c' ∈ x.callers, P c') → P c →
      ∀ c' ∈ x.callers ++ [c], P c' := fun old new c' hc' =>
    (List.mem_append.mp hc').elim (old c') fun own => List.mem_singleton.mp own ▸ new
  obtain ⟨f, there, listed⟩ := h.listed
  have roles : (Traffic.roles registry { x with callers := x.callers ++ [c] }) = x.roles registry := by
    have same : ∀ t, keyOf? { x with callers := x.callers ++ [c] } t = x.keyOf? t := fun t => by
      rw [keyOf?_append rfl]
      by_cases own : c.load = t
      · obtain ⟨key, carries⟩ := Option.isSome_iff_exists.mp (isSome_keyOf? first)
        rw [← own, load, carries]
        rfl
      · simp [own]
    unfold Traffic.roles
    congr 1
    exact funext fun t => congrArg (Deed.closing registry · t) (same t)
  refine ⟨h.placed, roles ▸ h.orderly, either h.keys ⟨hkey, self⟩, h.known,
    either h.tasks ⟨task, load ▸ (h.tasks c₀ first).2⟩, either (fun c' hc' => ?_) ?_,
    either (fun c' hc' => ?_) ?_, ⟨f, there, ⟨fun hk found => ?_, listed.due, fun unclear => ?_⟩⟩,
    either h.told fun _ => told, either h.stillborn fun o settled young => ?_⟩
  · exact either (h.apart c' hc') (apart c' hc')
  · exact either (load ▸ h.apart c₀ first) (load ▸ apart c₀ first)
  · refine either (h.agree c' hc') fun carries => ?_
    have agree := h.agree c' hc' c₀ first (carries.trans load)
    exact Value.same_trans (h.keys c' hc').1 agree (Value.same_symm hkey equal)
  · refine either (fun c' hc' carries => ?_) fun _ => self
    exact Value.same_trans hkey equal (h.agree c₀ first c' hc' (load.symm.trans carries))
  · obtain ⟨c', hc', own⟩ := listed.own hk found
    exact ⟨c', List.mem_append_left _ hc', own⟩
  · refine either (listed.kept unclear) fun still => ?_
    rw [Flights.find?_congr hkey hkey₀ f equal, load]
    exact listed.kept unclear c₀ first (load ▸ still)
  · rw [load] at settled young ⊢
    exact h.stillborn c₀ first o settled young

/-- A new task that waits for a load is told its outcome, at once or later. -/
theorem told_of_join {x : Traffic τ} {t : TaskId} (placed : x.schedule.Placed [])
    (key : Value) (known : t < x.schedule.outcomes.size) :
    x.schedule.outcomes.size < (x.enter (.join t .done)).schedule.outcomes.size ∧
      Told (x.enter (.join t .done)).schedule ⟨x.schedule.outcomes.size, key, t⟩ := by
  have spares := Schedule.Spares.push x.schedule.outcomes.size x.schedule
  have running := placed.push
  rcases Schedule.open_or_settled known with isOpen | ⟨outcome, settled⟩
  · have still := spares.stays (Nat.ne_of_lt known) isOpen
    rw [enter, Schedule.drive, show _ = _ from still]
    exact ⟨by simp, .inl (.inl (by simp))⟩
  · have still := spares.settled settled
    have ends := Schedule.Spares.settle running.is_open outcome
    rw [enter, Schedule.drive, show _ = _ from still]
    refine ⟨Nat.lt_of_lt_of_le (by simp) ends.size, .inr ⟨outcome, ends.settled still, ?_⟩⟩
    exact Schedule.settled_settle running.is_open outcome

theorem Sound.arrive_of_find {x : Traffic τ} (h : Sound registry x) {key : Value}
    {load : Deed τ Value} {t : TaskId} (hkey : key.isKey = true) (self : key.same key = true)
    (found : x.inFlight? registry key = some t) :
    Sound registry (x.arrive runner registry key load) := by
  obtain ⟨f, there, listed⟩ := h.listed
  obtain ⟨c₀, first, rfl, equal⟩ := listed.own hkey (inFlight?_eq there key ▸ found)
  have entered : x.arrive runner registry key load =
      { x.enter (.join c₀.load .done) with
        callers := x.callers ++ [⟨x.schedule.outcomes.size, key, c₀.load⟩] } := by
    have same : (x.enter (Deed.calling runner registry key load .done)).schedule =
        (x.enter (.join c₀.load .done)).schedule :=
      Deed.drive_calling_of_find
        (s := { x.schedule with outcomes := x.schedule.outcomes.push none }) found _
    simp only [arrive, found, Option.getD_some]
    rw [same]
    rfl
  obtain ⟨here, told⟩ := told_of_join h.placed key (h.tasks c₀ first).2
  have sound : Sound registry (x.enter (.join c₀.load .done)) := h.enter (.join fun r => .ends _ r)
  rw [entered]
  exact sound.joined (c := ⟨x.schedule.outcomes.size, key, c₀.load⟩) first rfl hkey self equal here
    (fun c' hc' => Nat.ne_of_lt (h.tasks c' hc').2) told

/-- A caller that finds no load starts one. -/
theorem Sound.arrive_of_none {x : Traffic τ} (h : Sound registry x) {key : Value}
    {load : Deed τ Value} (answers : ∀ r, (runner r).Apart registry) (apart : load.Apart registry)
    (hkey : key.isKey = true) (self : key.same key = true)
    (absent : x.inFlight? registry key = none) :
    Sound registry (x.arrive runner registry key load) := by
  obtain ⟨f, there, listed⟩ := h.listed
  let y := x.arrive runner registry key load
  let n := x.schedule.outcomes.size
  have starts : y.schedule =
      x.schedule.launched registry key (Deed.carrying runner registry key load) .done :=
    Schedule.drive_calling_of_none absent
  have callers : y.callers = x.callers ++ [⟨n, key, n + 1⟩] := by simp [y, arrive, absent, n]
  have begun : y.begun = n :: x.begun := rfl
  rw [inFlight?_eq there] at absent
  have spares : x.schedule.Spares n y.schedule := starts ▸ Schedule.spares_launched _
  have fresh : y.schedule.Open (n + 1) := starts ▸ Schedule.open_launched _
  have settled : ∀ {t o}, t < n → y.schedule.Settled t o → x.schedule.Settled t o := by
    rw [starts]
    exact fun lt now => Schedule.settled_of_launched lt now
  have either : ∀ {P : Caller → Prop}, (∀ c ∈ x.callers, P c) → P ⟨n, key, n + 1⟩ →
      ∀ c ∈ y.callers, P c := fun old new c hc =>
    (List.mem_append.mp (callers ▸ hc)).elim (old c) fun own => List.mem_singleton.mp own ▸ new
  have below : ∀ {u}, u ∈ y.begun → u ∈ x.begun ∨ u = n := fun there =>
    (List.mem_cons.mp there).symm
  have new : ∀ c ∈ x.callers, c.load < n + 1 := fun c hc => Nat.lt_succ_of_lt (h.tasks c hc).2
  have roles : ∀ t, (y.roles registry).last t = Deed.closing registry
      ((x.keyOf? t).or (if n + 1 = t then some key else none)) t := fun t =>
    congrArg (Deed.closing registry · t) (keyOf?_append callers t)
  have unknown : ∀ t, n ≤ t → x.keyOf? t = none := fun t above => keyOf?_eq_none fun c hc own => by
    exact absurd (own ▸ (h.tasks c hc).2) (Nat.not_lt.mpr above)
  have orderly : y.schedule.Orderly (World.SameFlights registry) (y.roles registry) := by
    rw [starts]
    refine Schedule.orderly_launched (h.orderly.mono (fun u stands => ?_) (fun u stands => ?_)
      fun _ _ stopped => stopped) (fun young => young (.head _)) ?_ ?_ ?_
    · have lt : u < n := ((h.placed.mem_iff u).mp stands).lt
      rw [roles, if_neg (Nat.ne_of_gt (Nat.lt_succ_of_lt lt)), Option.or_none]
      rfl
    · have lt : u < n := ((h.placed.mem_iff u).mp stands).lt
      exact not_congr ⟨fun there => (below there).elim id fun own => absurd own (Nat.ne_of_lt lt),
        .tail _⟩
    · rw [roles, unknown n (Nat.le_refl _), if_neg (Nat.succ_ne_self n)]
      rfl
    · exact fun there => (below there).elim
        (fun old => absurd (h.known _ old) (Nat.not_lt.mpr (Nat.le_succ _))) (Nat.succ_ne_self n)
    · rw [roles, unknown (n + 1) (Nat.le_succ n), if_pos rfl]
      exact Deed.within_carrying answers apart (n + 1)
  have flights : y.schedule.state.flights? registry = some (f.start key (n + 1)) := by
    rw [starts]
    exact (World.flights?_changeFlights registry _ _).trans (by rw [there]; rfl)
  change Sound registry y
  refine ⟨starts ▸ Schedule.placed_launched h.placed, orderly, either h.keys ⟨hkey, self⟩,
    fun u there => ?_, either (fun c hc => (h.tasks c hc).imp (Nat.lt_of_lt_of_le · spares.size)
      (Nat.lt_of_lt_of_le · spares.size)) ⟨Nat.lt_of_succ_lt fresh.lt, fresh.lt⟩,
    either (fun c hc => ?_) ?_, either (fun c hc => ?_) ?_,
    ⟨_, flights, ⟨fun hk found => ?_, fun hk found => ?_, fun unclear => ?_⟩⟩,
    either (fun c hc going => (h.told c hc going).spared spares) fun _ => .inl (.inl ?_),
    either (fun c hc o now young => ?_) fun o now _ => absurd fresh now.not_open⟩
  · exact (below there).elim (fun old => Nat.lt_of_lt_of_le (h.known u old) spares.size)
      fun own => own ▸ Nat.lt_of_succ_lt fresh.lt
  · exact either (h.apart c hc) (Nat.ne_of_lt (h.tasks c hc).2)
  · exact either (fun c hc => Nat.ne_of_gt (Nat.lt_succ_of_lt (h.tasks c hc).1))
      (Nat.succ_ne_self n)
  · exact either (h.agree c hc) fun own => absurd own (Nat.ne_of_lt (new c hc))
  · exact either (fun c hc own => absurd own (Nat.ne_of_gt (new c hc))) fun _ => self
  · rw [Flights.find?_start hk hkey] at found
    split at found
    · next equal =>
      cases found
      exact ⟨⟨n, key, n + 1⟩, by simp [callers], rfl, equal⟩
    · obtain ⟨c, hc, own⟩ := listed.own hk found
      exact ⟨c, by simp [callers, hc], own⟩
  · rw [Flights.find?_start hk hkey] at found
    split at found
    · cases found
      exact .inl fresh
    · obtain ⟨c, hc, rfl, _⟩ := listed.own hk found
      have lt := (h.tasks c hc).2
      exact (listed.due hk found).imp (spares.stays (Nat.ne_of_lt lt)) fun young there =>
        (below there).elim young (Nat.ne_of_lt lt)
  · refine either (fun c hc still => ?_) fun _ => by rw [Flights.find?_start hkey hkey, if_pos self]
    have lt := (h.tasks c hc).2
    have kept := listed.kept unclear c hc (still.imp (fun isOpen => ?_) fun young old =>
      young (.tail _ old))
    · rw [Flights.find?_start (h.keys c hc).1 hkey, if_neg, kept]
      intro equal
      rw [Flights.find?_congr (h.keys c hc).1 hkey f equal, absent] at kept
      cases kept
    · rcases Schedule.open_or_settled lt with before | ⟨o, before⟩
      · exact before
      · exact absurd isOpen (spares.settled before).not_open
  · rw [starts]
    simp [Schedule.launched, n]
  · exact h.stillborn c hc o (settled (h.tasks c hc).2 now) fun old => young (.tail _ old)

/-- What holds after any number of steps: by induction on the steps. -/
theorem Reached.sound {x : Traffic τ} (h : Reached runner registry x)
    (answers : ∀ r, (runner r).Apart registry) : Sound registry x := by
  induction h with
  | start nothing =>
    refine ⟨⟨.nil, fun t => ?_, by simp⟩, ⟨by simp, by simp⟩, by simp, by simp, by simp, by simp,
      by simp, ⟨_, nothing, ⟨fun _ found => ?_, fun _ found => ?_, by simp⟩⟩, by simp, by simp⟩
    · simp [Schedule.standing, Schedule.Open]
    · cases found
    · cases found
  | @step x _ _ step ih =>
    cases step with
    | @arrive key load hkey self apart =>
      cases found : x.inFlight? registry key with
      | some t => exact ih.arrive_of_find hkey self found
      | none => exact ih.arrive_of_none answers apart hkey self found
    | turn takes => exact ih.moves (ih.moves_of_takes takes)
    | cancel t => exact ih.cancel t
    | clear => exact ih.clear
    | other within => exact ih.enter within

end Traffic

end Relata
