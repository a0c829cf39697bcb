import Relata.Proofs.Loading.Traffic

/-!
One load for a key at a time. Whoever calls while a load is in flight is told the outcome of that
load and of no other, whatever becomes of other callers. The table of loads in flight loses a load
only when it settles or when the table is cleared; so while a load goes on, its key finds it and no
second one starts. The key of a load that has taken a step is free once it settles. A load that is
cancelled before its first step never gets to release its key.
-/

namespace Relata

open Process (begin)

namespace Traffic

variable {τ : Type} {runner : Request → Deed τ (List Row)} {registry : RegistryId}

/-- A caller is told the outcome of its load and no other: it waits while the load goes on, and
afterwards it has ended the same way, or that outcome is on its way to it. -/
structure Receives (s : Schedule (World τ)) (c : Caller) : Prop where
  waits : s.Open c.load → (c.load, ⟨c.task, .done⟩) ∈ s.waiting
  comes : ∀ outcome, s.Settled c.load outcome → s.Settled c.task outcome ∨
    .relay ⟨c.task, .done⟩ outcome ∈ s.queue ∨
    Schedule.wake ⟨c.task, .done⟩ outcome ∈ s.queue
  exact : ∀ outcome, s.Settled c.task outcome → s.Settled c.load outcome

/-- What a turn does to the table: under a key stands what stood there, or nothing, if what stood
there was the task of this turn and it has settled. -/
def KeepsOthers (registry : RegistryId) (t : TaskId) (x y : Traffic τ) : Prop :=
  ∀ key : Value, key.isKey = true → y.inFlight? registry key = x.inFlight? registry key ∨
    y.inFlight? registry key = none ∧ x.inFlight? registry key = some t ∧ x.schedule.Open t ∧
      ∃ outcome, y.schedule.Settled t outcome

theorem Told.receives {s : Schedule (World τ)} {c : Caller} (h : Told s c) (placed : s.Placed []) :
    Receives s c := by
  rcases h with waits | ⟨outcome, settled, own⟩
  · have isOpen : s.Open c.task := by
      refine (placed.mem_iff c.task).mp ?_
      obtain there | ⟨_, _, there | there⟩ := waits
      · exact Schedule.mem_standing_of_waiting there
      · exact Schedule.mem_standing_of_queue there
      · exact Schedule.mem_standing_of_queue there
    refine ⟨fun going => ?_, fun outcome settled => .inr ?_, fun outcome settled =>
      absurd isOpen settled.not_open⟩
    · obtain there | ⟨_, settled, _⟩ := waits
      · exact there
      · exact absurd going settled.not_open
    · obtain there | ⟨other, settled', there⟩ := waits
      · have pending : (s.outcomes[c.load]?).join = none := placed.awaited _ there
        rw [show s.outcomes[c.load]? = _ from settled] at pending
        cases pending
      · exact settled'.unique settled ▸ there
  · refine ⟨fun going => absurd going settled.not_open, fun o ends => .inl ?_, fun o ends => ?_⟩
    · exact settled.unique ends ▸ own
    · exact own.unique ends ▸ settled

theorem Sound.keepsOthers {x : Traffic τ} (h : Sound registry x) {turn : Turn (World τ)}
    {s : Schedule (World τ)} (takes : x.schedule.Takes turn s) :
    KeepsOthers registry turn.task x (x.turned turn s) := by
  obtain ⟨f, there, listed⟩ := h.listed
  have moves := h.moves_of_takes takes
  intro key hk
  rcases moves.flights with ⟨same, _⟩ | ⟨c, hc, carries, _, settled, released⟩
  · exact .inl (by rw [inFlight?_eq there, inFlight?_eq (same.trans there)])
  · have hkey := (h.keys c hc).1
    rw [inFlight?_eq there, inFlight?_eq (released.trans (congrArg _ there)),
      Flights.find?_release hk hkey]
    split
    · next own =>
      have found : f.find? key = some turn.task :=
        (Flights.find?_congr hk hkey f own.2).trans (carries ▸ own.1)
      obtain ⟨before, after, taken, rfl⟩ := takes
      exact .inr ⟨rfl, found, (h.placed.taken taken).is_open, settled⟩
    · exact .inl rfl

/-- In any order of steps: unless the registry is cleared, the loads of one key that have not
settled are one; a caller that is not cancelled receives the outcome of the load that it found or
started, and no other; cancelling a caller cancels no load, and leaves all outcomes and the places of
all other tasks; and a turn takes no key out of the table but that of its own task, which settles
with it. -/
theorem single_flight {x : Traffic τ} (reached : Reached runner registry x)
    (answers : ∀ r, (runner r).Apart registry) :
    (x.cleared = false → ∀ c ∈ x.callers, ∀ c' ∈ x.callers, c.key.same c'.key = true →
      x.schedule.Open c.load → x.schedule.Open c'.load → c.load = c'.load) ∧
    (∀ c ∈ x.callers, c.task ∉ x.cancelled → Receives x.schedule c) ∧
    (∀ c ∈ x.callers, (∀ c' ∈ x.callers, c'.load ≠ c.task) ∧
      Schedule.Cancels c.task x.schedule (x.cancel c.task).schedule) ∧
    ∀ turn s, x.schedule.Takes turn s → KeepsOthers registry turn.task x (x.turned turn s) := by
  have sound := reached.sound answers
  obtain ⟨f, _, listed⟩ := sound.listed
  refine ⟨fun unclear c hc c' hc' equal going going' => ?_, fun c hc going => ?_, fun c hc => ?_,
    fun turn s takes => sound.keepsOthers takes⟩
  · have own := listed.kept unclear c hc (.inl going)
    have other := listed.kept unclear c' hc' (.inl going')
    rw [Flights.find?_congr (sound.keys c hc).1 (sound.keys c' hc').1 f equal, other] at own
    exact (Option.some.inj own).symm
  · exact (sound.told c hc going).receives sound.placed
  · exact ⟨fun c' hc' => sound.apart c' hc' c hc, Schedule.cancels_cancel _ _⟩

/-- Two callers of one key, each with a load of its own. -/
def meeting : Traffic Unit :=
  let idle : Traffic Unit := ⟨⟨.start ⟨.empty, .empty⟩ (), [], #[], []⟩, [], [], [], false⟩
  let once := idle.arrive (fun _ => Act.fail .notImplemented) 0 (.int 5) (pure (.int 7))
  once.arrive (fun _ => Act.fail .notImplemented) 0 (.int 5) (pure (.int 8))

theorem reached_meeting : Reached (fun _ => Act.fail .notImplemented) 0 meeting :=
  .step (.step (.start rfl) (.arrive _ rfl rfl fun last => .ends last _))
    (.arrive _ rfl rfl fun last => .ends last _)

/-- Both wait for the task that the first of them started. -/
theorem meeting_waits : Receives meeting.schedule ⟨0, .int 5, 1⟩ ∧
    Receives meeting.schedule ⟨2, .int 5, 1⟩ ∧ meeting.schedule.waiting.map (·.1) = [1, 1] := by
  have flight := single_flight reached_meeting fun _ last => .ends last _
  exact ⟨flight.2.1 ⟨0, .int 5, 1⟩ (.head _) List.not_mem_nil,
    flight.2.1 ⟨2, .int 5, 1⟩ (.tail _ (.head _)) List.not_mem_nil, rfl⟩

/-- A caller starts a run of its load: a new task is filed under the key and stands in the queue,
about to take its first step. -/
def Starts (runner : Request → Deed τ (List Row)) (registry : RegistryId) (x : Traffic τ)
    (key : Value) (load : Deed τ Value) : Prop :=
  let task := x.schedule.outcomes.size + 1
  let y := x.arrive runner registry key load
  y.inFlight? registry key = some task ∧
    y.schedule.queue = x.schedule.queue ++
      [.run task (.ok ()) (begin (Deed.carrying runner registry key load task))]

theorem Sound.starts {x : Traffic τ} (h : Sound registry x) {key : Value} {load : Deed τ Value}
    (hkey : key.isKey = true) (self : key.same key = true)
    (absent : x.inFlight? registry key = none) : Starts runner registry x key load := by
  obtain ⟨f, there, _⟩ := h.listed
  have schedule : (x.arrive runner registry key load).schedule =
      x.schedule.launched registry key (Deed.carrying runner registry key load) .done :=
    Schedule.drive_calling_of_none absent
  have flights : (x.arrive runner registry key load).schedule.state.flights? registry =
      some (f.start key (x.schedule.outcomes.size + 1)) := by
    rw [schedule]
    exact (World.flights?_changeFlights registry _ _).trans (by rw [there]; rfl)
  refine ⟨?_, congrArg Schedule.queue schedule⟩
  rw [inFlight?_eq flights, Flights.find?_start hkey hkey, if_pos self]

/-- When the key of a load is released. A task found under a key has not settled, unless it was
cancelled before its first step; once all loads of a key have settled, each after a step, the next
call starts a run of its own. But a load cancelled before its first step stays under its key until
the registry is cleared: whoever calls for the key is told of the cancellation at once, and nothing
is started for it. -/
theorem released_after_a_step {x : Traffic τ} (reached : Reached runner registry x)
    (answers : ∀ r, (runner r).Apart registry) (key : Value) (load : Deed τ Value)
    (hkey : key.isKey = true) (self : key.same key = true) :
    (∀ t outcome, x.inFlight? registry key = some t → x.schedule.Settled t outcome →
      t ∉ x.begun ∧ t ∈ x.cancelled ∧ outcome = .error .cancelled) ∧
    ((∀ c ∈ x.callers, key.same c.key = true →
      c.load ∈ x.begun ∧ ∃ outcome, x.schedule.Settled c.load outcome) →
        Starts runner registry x key load) ∧
    (x.cleared = false → ∀ c ∈ x.callers, key.same c.key = true → c.load ∉ x.begun →
      (∃ outcome, x.schedule.Settled c.load outcome) →
        x.inFlight? registry key = some c.load ∧
        (x.arrive runner registry key load).schedule =
          Schedule.settle { x.schedule with outcomes := x.schedule.outcomes.push none }
            x.schedule.outcomes.size (.error .cancelled)) := by
  have sound := reached.sound answers
  obtain ⟨f, there, listed⟩ := sound.listed
  refine ⟨fun t outcome found settled => ?_, fun settled => ?_,
    fun unclear c hc equal young ⟨outcome, settled⟩ => ?_⟩
  · rw [inFlight?_eq there] at found
    obtain ⟨c, hc, rfl, _⟩ := listed.own hkey found
    have young := (listed.due hkey found).resolve_left settled.not_open
    exact ⟨young, sound.stillborn c hc outcome settled young⟩
  · refine sound.starts hkey self ?_
    rw [inFlight?_eq there]
    refine Option.eq_none_iff_forall_ne_some.mpr fun t found => ?_
    obtain ⟨c, hc, rfl, equal⟩ := listed.own hkey found
    obtain ⟨begun, outcome, ended⟩ := settled c hc equal
    exact (listed.due hkey found).elim ended.not_open fun young => young begun
  · have found : x.inFlight? registry key = some c.load := by
      rw [inFlight?_eq there, Flights.find?_congr hkey (sound.keys c hc).1 f equal]
      exact listed.kept unclear c hc (.inr young)
    obtain ⟨_, rfl⟩ := sound.stillborn c hc outcome settled young
    have still : Schedule.Settled { x.schedule with outcomes := x.schedule.outcomes.push none }
        c.load (.error .cancelled) :=
      (Schedule.Spares.push x.schedule.outcomes.size x.schedule).settled settled
    refine ⟨found, (Deed.drive_calling_of_find
      (s := { x.schedule with outcomes := x.schedule.outcomes.push none }) found _).trans ?_⟩
    rw [Schedule.drive, show _ = _ from still]
    rfl

/-- The task of the load is cancelled before its first step, and its turn comes. -/
def abandoned : Traffic Unit :=
  (meeting.cancel 1).turned (.run 1 (.error .cancelled) (begin (Deed.carrying
    (fun _ => Act.fail .notImplemented) 0 (.int 5) (pure (.int 7)) 1)))
    (meeting.cancel 1).schedule.step

/-- A third caller is told of the cancellation, and its load never runs. -/
theorem abandoned_keeps_its_key : abandoned.inFlight? 0 (.int 5) = some 1 ∧
    ((abandoned.arrive (fun _ => Act.fail .notImplemented) 0 (.int 5)
      (pure (.int 9))).schedule.outcomes.toList.getLast?) = some (some (.error .cancelled)) := by
  have reached : Reached (fun _ => Act.fail .notImplemented) 0 abandoned :=
    .step (.step reached_meeting (.cancel _ 1)) (.turn (Schedule.takes_step rfl))
  have stays := (released_after_a_step reached (fun _ last => .ends last _) (.int 5)
    (pure (.int 9)) rfl rfl).2.2 rfl ⟨0, .int 5, 1⟩ (.head _) rfl (by decide) ⟨_, rfl⟩
  exact ⟨stays.1, by rw [stays.2]; rfl⟩

end Traffic

end Relata
