import Relata.Proofs.Loading.Launch
import Relata.Proofs.Process.Beside

/-!
Calls that share one load, as a step relation. Calls arrive one after another until the load has
settled; any turn of the queue is taken; and between two turns others may change the world, as far as
they may at that time. What one has to know of the calls is what each does when it arrives, what the
load comes to beside others, and what a call makes of its outcome; then it holds in any order of
steps that one load is carried out for all calls, and each goes on with its outcome.
-/

namespace Relata

open Process (Along Glides begin)

namespace World

variable {τ : Type}

/-- What is in flight under a key in a registry, if there is such a registry. -/
def inFlight? (registry : RegistryId) (key : Value) (w : World τ) : Option (Option TaskId) :=
  (w.flights? registry).map (·.find? key)

theorem find?_of_inFlight? {w : World τ} {registry : RegistryId} {k key : Value}
    {found : Option TaskId} (h : w.inFlight? registry key = some found) (twin : k.Twin key) :
    (w.registryOf registry).flights.find? k = found := by
  obtain ⟨f, there, own⟩ := Option.map_eq_some_iff.mp h
  rw [flights_registryOf there]
  exact (twin.lookup? f.entries).trans own

theorem inFlight?_twin {k key : Value} (twin : k.Twin key) (w : World τ) (registry : RegistryId) :
    w.inFlight? registry k = w.inFlight? registry key :=
  congrArg (w.flights? registry).map (funext fun f => twin.lookup? f.entries)

theorem inFlight?_start {w : World τ} {registry : RegistryId} {k key : Value}
    {found : Option TaskId} (h : w.inFlight? registry key = some found) (twin : k.Twin key)
    (t : TaskId) : (w.changeFlights registry (·.start k t)).inFlight? registry key = some (some t) := by
  obtain ⟨f, there, -⟩ := Option.map_eq_some_iff.mp h
  rw [← inFlight?_twin twin]
  simp [inFlight?, there, Flights.find?_start_own twin.own]

theorem inFlight?_release {w : World τ} {registry : RegistryId} {k key : Value} {t : TaskId}
    (h : w.inFlight? registry key = some (some t)) (twin : k.Twin key) :
    (w.changeFlights registry (·.release k t)).inFlight? registry key = some none := by
  obtain ⟨f, there, own⟩ := Option.map_eq_some_iff.mp h
  rw [← inFlight?_twin twin]
  simp [inFlight?, there, Flights.find?_release_own ((twin.lookup? f.entries).trans own)]

end World

/-- Calls that share a load: what each is, what it finds when it arrives, and what others may do to
the world until the load has settled and afterwards. -/
structure Sharing (τ ι : Type) where
  runner : Request → Deed τ (List Row)
  registry : RegistryId
  key : Value
  call : ι → Deed τ Value
  fits : ι → World τ → Prop
  meanwhile : World τ → World τ → Prop
  afterwards : World τ → World τ → Prop

/-- A call, with its task and the task that carries out the load for it: the one in flight when it
arrives, or the next one. -/
structure Joint.Call (ι : Type) where
  task : TaskId
  what : ι
  load : TaskId

/-- A schedule, with the calls that have arrived. -/
structure Joint (τ ι : Type) where
  schedule : Schedule (World τ)
  calls : List (Joint.Call ι)

/-- What answers statements does nothing but what others may do. -/
def Sharing.Answers {τ ι : Type} (S : Sharing τ ι) : Prop :=
  Process.Answers ⟨S.meanwhile, S.meanwhile, fun _ => True⟩ S.runner

namespace Joint

variable {τ ι : Type}

/-- The load of a call has settled. -/
def Settled (x : Joint τ ι) : Prop := ∃ c ∈ x.calls, ∃ outcome, x.schedule.Settled c.load outcome

/-- A call arrives and takes its first step. -/
def arrive (S : Sharing τ ι) (x : Joint τ ι) (what : ι) : Joint τ ι :=
  let task := x.schedule.outcomes.size
  let inFlight := (x.schedule.state.registryOf S.registry).flights.find? S.key
  { schedule := Schedule.drive task ((S.call what .done).answered S.runner)
      { x.schedule with outcomes := x.schedule.outcomes.push none }
    calls := x.calls ++ [⟨task, what, inFlight.getD (task + 1)⟩] }

/-- Others change the world. -/
def withWorld (x : Joint τ ι) (w : World τ) : Joint τ ι :=
  { x with schedule := { x.schedule with state := w } }

inductive Step (S : Sharing τ ι) : Joint τ ι → Joint τ ι → Prop
  | arrive {x : Joint τ ι} {what : ι} : ¬ x.Settled → S.fits what x.schedule.state →
    Step S x (x.arrive S what)
  | turn {x : Joint τ ι} {turn : Turn (World τ)} {schedule : Schedule (World τ)} :
    x.schedule.Takes turn schedule → Step S x { x with schedule := schedule }
  | meanwhile {x : Joint τ ι} {w : World τ} : ¬ x.Settled → S.meanwhile x.schedule.state w →
    Step S x (x.withWorld w)
  | afterwards {x : Joint τ ι} {w : World τ} : x.Settled → S.afterwards x.schedule.state w →
    Step S x (x.withWorld w)

/-- What any number of steps leads to, from a world in which nothing runs. -/
inductive Reached (S : Sharing τ ι) (start : World τ) : Joint τ ι → Prop
  | start : Reached S start ⟨⟨start, [], #[], []⟩, []⟩
  | step {x y : Joint τ ι} : Reached S start x → Step S x y → Reached S start y

/-- The scheduler's own order of turns is one of all orders. -/
theorem Reached.runFor {S : Sharing τ ι} {start : World τ} {x : Joint τ ι} (h : Reached S start x)
    (turns : Nat) : Reached S start { x with schedule := x.schedule.runFor turns } := by
  induction turns generalizing x with
  | zero => exact h
  | succ turns ih =>
    cases queue : x.schedule.queue with
    | nil =>
      rw [Schedule.runFor, queue]
      exact h
    | cons turn rest =>
      rw [Schedule.runFor, queue]
      exact ih (.step h (.turn (Schedule.takes_step queue)))

/-- Before the first call nothing runs, and whatever is reached later comes from there. -/
theorem Reached.opening {S : Sharing τ ι} {start : World τ} {x : Joint τ ι} (h : Reached S start x) :
    (∃ w, Relation.ReflTransGen S.meanwhile start w ∧ x = ⟨⟨w, [], #[], []⟩, []⟩) ∨
      ∃ w first, Relation.ReflTransGen S.meanwhile start w ∧ S.fits first w ∧
        Relation.ReflTransGen (Step S) (arrive S ⟨⟨w, [], #[], []⟩, []⟩ first) x := by
  induction h with
  | start => exact .inl ⟨start, .refl, rfl⟩
  | step _ step before =>
    rcases before with ⟨w, others, rfl⟩ | ⟨w, first, others, fits, leads⟩
    · cases step with
      | arrive _ fits => exact .inr ⟨w, _, others, fits, .refl⟩
      | turn takes =>
        obtain ⟨before, after, taken, -⟩ := takes
        simp at taken
      | meanwhile _ change => exact .inl ⟨_, others.tail change, rfl⟩
      | afterwards settled _ =>
        obtain ⟨c, none, _⟩ := settled
        cases none
    · exact .inr ⟨w, first, others, fits, leads.tail step⟩

end Joint

/-- What is known of calls that share a load, at each stage of it. -/
structure Sharing.Terms {τ ι : Type} (S : Sharing τ ι) where
  /-- What the load of a call does to the world. -/
  guar : ι → World τ → World τ → Prop
  /-- The world before the load is carried out. -/
  begins : World τ → Prop
  /-- What holds of a call until the load that it starts is carried out. -/
  due : ι → World τ → Prop
  /-- The world while the load of a call waits. -/
  pending : ι → World τ → Prop
  /-- What holds of a call until the load of another one has settled. -/
  known : ι → ι → World τ → Prop
  /-- What the load of a call comes to. -/
  ends : ι → Except Error Value → World τ → Prop
  /-- The world after the load of a call has settled with an outcome. -/
  past : ι → Except Error Value → World τ → Prop
  /-- What a call finds when it is told the outcome of the load of another one. -/
  ready : ι → ι → Except Error Value → World τ → Prop
  /-- How a call ends, told the outcome of the load of another one. -/
  served : ι → ι → Except Error Value → Except Error Value → World τ → Prop
  /-- What calls and others do to the world after the load of a call has settled. -/
  after : ι → World τ → World τ → Prop

namespace Sharing.Terms

variable {τ ι : Type} {S : Sharing τ ι} (T : S.Terms)

def pact (first : ι) : Pact (World τ) := ⟨T.guar first, S.meanwhile, T.pending first⟩

/-- A load that, started by a call, comes to what it should. -/
def Carries (what : ι) (load : Deed τ Value) : Prop :=
  ∀ w, T.begins w → T.due what w → load.Ends (T.pact what) w (T.ends what)

/-- What a call does once it is told the outcome of the load serves it. -/
def Serves (what : ι) (post : Except Error Value → Process (World τ)) : Prop :=
  ∀ first outcome w, T.ready first what outcome w → ∃ r w', T.after first w w' ∧
    T.served first what outcome r w' ∧ Glides S.runner (post outcome) w (.done r) w'

/-- A call that arrives in a world, where the load of another one is being carried out or its own is
to be, comes to calling for the load, under a key equal to that of the load. -/
structure Arrives (first what : ι) (w : World τ) (k : Value) (load : Deed τ Value)
    (post : Except Error Value → Process (World τ)) (w' : World τ) : Prop where
  key : k.Twin S.key
  glides : Glides S.runner (S.call what .done) w (Deed.coordinate S.registry k load post) w'
  meanwhile : S.meanwhile w w'
  known : T.known first what w'
  carries : T.Carries what load
  serves : T.Serves what post

/-- What is to be known of the parts. -/
structure Lawful : Prop where
  key : S.key.same S.key = true
  pact : ∀ first, (T.pact first).Lawful
  answers : S.Answers
  guar_meanwhile : ∀ {first w w'}, S.meanwhile w w' → T.guar first w w'
  entry_guar : ∀ {first w w'}, T.guar first w w' →
    w'.inFlight? S.registry S.key = w.inFlight? S.registry S.key
  entry_meanwhile : ∀ {w w'}, S.meanwhile w w' →
    w'.inFlight? S.registry S.key = w.inFlight? S.registry S.key
  begins_meanwhile : ∀ {w w'}, T.begins w → S.meanwhile w w' → T.begins w'
  begins_filed : ∀ {w} f, T.begins w → T.begins (w.changeFlights S.registry f)
  due_first : ∀ {what w}, T.begins w → S.fits what w → T.due what w
  due_meanwhile : ∀ {what w w'}, T.due what w → S.meanwhile w w' → T.due what w'
  due_filed : ∀ {what w} f, T.due what w → T.due what (w.changeFlights S.registry f)
  known_due : ∀ {what w}, T.due what w → T.known what what w
  known_meanwhile : ∀ {first what w w'}, T.known first what w → S.meanwhile w w' →
    T.known first what w'
  known_guar : ∀ {first what w w'}, T.known first what w → T.guar first w w' →
    T.known first what w'
  known_filed : ∀ {first what w} f, T.known first what w →
    T.known first what (w.changeFlights S.registry f)
  pending_due : ∀ {first w}, T.begins w → T.due first w → T.pending first w
  arrives : ∀ {first what w}, T.pending first w → S.fits what w → ∃ k load post w',
    T.Arrives first what w k load post w'
  past_ends : ∀ {what outcome w} f, T.ends what outcome w →
    (w.changeFlights S.registry f).inFlight? S.registry S.key = some none →
      T.past what outcome (w.changeFlights S.registry f)
  ready_past : ∀ {first what outcome w}, T.past first outcome w → T.known first what w →
    T.ready first what outcome w
  past_after : ∀ {first outcome w w'}, T.past first outcome w → T.after first w w' →
    T.past first outcome w'
  ready_after : ∀ {first what outcome w w'}, T.ready first what outcome w → T.after first w w' →
    T.ready first what outcome w'
  served_after : ∀ {first what outcome r w w'}, T.served first what outcome r w →
    T.after first w w' → T.served first what outcome r w'
  after_afterwards : ∀ {first w w'}, S.afterwards w w' → T.after first w w'

/-- What answers statements does so aside of the load of any call. -/
theorem Lawful.answered {T : S.Terms} (laws : T.Lawful) (first : ι) :
    Process.Answers (T.pact first) S.runner := fun r last =>
  (laws.answers r last).mono id laws.guar_meanwhile

end Sharing.Terms

namespace Joint

variable {τ ι : Type} {S : Sharing τ ι} {T : S.Terms}

/-- A call that finds no load in flight starts one, and waits for it. -/
theorem starts {T : S.Terms} {x : Joint τ ι} {first what : ι} {k : Value} {load : Deed τ Value}
    {post : Except Error Value → Process (World τ)} {w' : World τ}
    (h : T.Arrives first what x.schedule.state k load post w')
    (entry : w'.inFlight? S.registry S.key = some none) :
    (x.arrive S what).schedule = Schedule.launched S.registry k
      (Deed.carrying S.runner S.registry k load) (fun r => (post r).answered S.runner)
      { x.schedule with state := w' } := by
  refine (h.glides x.schedule.outcomes.size
    { x.schedule with outcomes := x.schedule.outcomes.push none } rfl).trans ?_
  exact Schedule.drive_calling_of_none (s := { x.schedule with state := w' })
    (World.find?_of_inFlight? entry h.key)

/-- A call waits for the load, or is about to be told its outcome. -/
def Awaiting (T : S.Terms) (s : Schedule (World τ)) (c : Call ι) : Prop :=
  ∃ post, T.Serves c.what post ∧ s.Awaits c.task c.load fun r => (post r).answered S.runner

/-- The tasks are those of the calls and one that carries out the load for all of them. -/
structure Company (t : TaskId) (x : Joint τ ι) : Prop where
  placed : x.schedule.Placed []
  some_ : x.calls ≠ []
  loads : ∀ c ∈ x.calls, c.load = t
  once : (t :: x.calls.map Call.task).Nodup
  size : x.schedule.outcomes.size = x.calls.length + 1
  below : ∀ c ∈ x.calls, c.task < x.schedule.outcomes.size
  all : ∀ u < x.schedule.outcomes.size, u = t ∨ ∃ c ∈ x.calls, c.task = u

/-- The load is being carried out: its task stands in the queue. -/
structure Going (T : S.Terms) (t : TaskId) (first : ι) (k : Value)
    (next : Except Error Unit → Process (World τ)) (x : Joint τ ι) : Prop where
  company : Company t x
  key : k.Twin S.key
  entry : x.schedule.state.inFlight? S.registry S.key = some (some t)
  pending : T.pending first x.schedule.state
  turn : .run t (.ok ()) next ∈ x.schedule.queue
  along : ∀ w, S.meanwhile x.schedule.state w →
    Along (T.pact first) (Deed.releasing S.registry k t) (T.ends first) (next (.ok ())) w
  calls : ∀ c ∈ x.calls, T.known first c.what x.schedule.state ∧ Awaiting T x.schedule c

/-- The load has settled: each call has ended, or is about to be told. -/
structure Over (T : S.Terms) (t : TaskId) (first : ι) (outcome : Except Error Value)
    (x : Joint τ ι) : Prop where
  company : Company t x
  settled : x.schedule.Settled t outcome
  past : T.past first outcome x.schedule.state
  calls : ∀ c ∈ x.calls,
    (T.ready first c.what outcome x.schedule.state ∧ Awaiting T x.schedule c) ∨
      ∃ r, x.schedule.Settled c.task r ∧ T.served first c.what outcome r x.schedule.state

/-- What holds after any number of steps. -/
inductive Sound (T : S.Terms) : Joint τ ι → Prop
  | idle {w : World τ} : T.begins w → w.inFlight? S.registry S.key = some none →
    Sound T ⟨⟨w, [], #[], []⟩, []⟩
  | going {x : Joint τ ι} {t : TaskId} {first : ι} {k : Value}
    {next : Except Error Unit → Process (World τ)} : Going T t first k next x → Sound T x
  | past {x : Joint τ ι} {t : TaskId} {first : ι} {outcome : Except Error Value} :
    Over T t first outcome x → Sound T x

theorem Awaiting.spared {s s' : Schedule (World τ)} {c : Call ι} {t : TaskId}
    (h : Awaiting T s c) (kept : Schedule.Spares t s s') : Awaiting T s' c := by
  obtain ⟨post, serves, awaits⟩ := h
  exact ⟨post, serves, awaits.spared kept⟩

theorem Awaiting.taken {s : Schedule (World τ)} {c : Call ι} (h : Awaiting T s c)
    {before after : List (Turn (World τ))} {turn : Turn (World τ)}
    (taken : s.queue = before ++ turn :: after) (apart : turn.task ≠ c.task) :
    Awaiting T { s with queue := before ++ after } c := by
  obtain ⟨post, serves, awaits⟩ := h
  exact ⟨post, serves, awaits.taken taken apart⟩

theorem Going.not_settled {t : TaskId} {first : ι} {k : Value}
    {next : Except Error Unit → Process (World τ)} {x : Joint τ ι} (h : Going T t first k next x) :
    ¬ x.Settled := by
  rintro ⟨c, hc, outcome, settled⟩
  rw [h.company.loads c hc] at settled
  exact settled.not_open ((h.company.placed.mem_iff t).mp (Schedule.mem_standing_of_queue h.turn))

theorem Over.isSettled {t : TaskId} {first : ι} {outcome : Except Error Value} {x : Joint τ ι}
    (h : Over T t first outcome x) : x.Settled := by
  obtain ⟨c, hc⟩ := List.exists_mem_of_ne_nil _ h.company.some_
  exact ⟨c, hc, outcome, by rw [h.company.loads c hc]; exact h.settled⟩

/-- While the load goes on, calls wait for it and have no turn. -/
theorem Going.turn_eq {t : TaskId} {first : ι} {k : Value}
    {next : Except Error Unit → Process (World τ)} {x : Joint τ ι} (h : Going T t first k next x)
    {turn : Turn (World τ)} (there : turn ∈ x.schedule.queue) : turn = .run t (.ok ()) next := by
  have placed := h.company.placed
  have once : (x.schedule.queue.map Turn.task ++ x.schedule.waiting.map (·.2.task)).Nodup :=
    placed.once
  have isOpen := (placed.mem_iff turn.task).mp (Schedule.mem_standing_of_queue there)
  have loading := (placed.mem_iff t).mp (Schedule.mem_standing_of_queue h.turn)
  rcases h.company.all _ isOpen.lt with own | ⟨c, hc, own⟩
  · exact List.inj_on_of_nodup_map once.of_append_left there h.turn own
  · obtain ⟨post, _, waits | ⟨out, settled, _⟩⟩ := (h.calls c hc).2
    · exact absurd own.symm ((List.nodup_append.mp once).2.2 _ (List.mem_map_of_mem there) _
        (List.mem_map_of_mem waits))
    · rw [h.company.loads c hc] at settled
      exact absurd loading settled.not_open

/-- The others change the world and leave the tasks alone. -/
theorem Company.withWorld {t : TaskId} {x : Joint τ ι} (h : Company t x) (w : World τ) :
    Company t (x.withWorld w) :=
  ⟨⟨h.placed.1, h.placed.2, h.placed.3⟩, h.some_, h.loads, h.once, h.size, h.below, h.all⟩

/-- A turn leaves the tasks that there are, unless it starts one. -/
theorem Company.withSchedule {t : TaskId} {x : Joint τ ι} (h : Company t x)
    {s : Schedule (World τ)} (placed : s.Placed [])
    (size : s.outcomes.size = x.schedule.outcomes.size) : Company t { x with schedule := s } :=
  ⟨placed, h.some_, h.loads, h.once, size.trans h.size, fun c hc => size ▸ h.below c hc,
    fun u lt => h.all u (size ▸ lt)⟩

namespace Sound

variable (laws : T.Lawful)
include laws

theorem meanwhile {x : Joint τ ι} (h : Sound T x) (unsettled : ¬ x.Settled) {w : World τ}
    (change : S.meanwhile x.schedule.state w) : Sound T (x.withWorld w) := by
  cases h with
  | idle begins entry =>
    exact .idle (laws.begins_meanwhile begins change) ((laws.entry_meanwhile change).trans entry)
  | past h => exact absurd h.isSettled unsettled
  | @going x t first k next h =>
    have still : Going T t first k next (x.withWorld w) := by
      refine ⟨h.company.withWorld w, h.key, (laws.entry_meanwhile change).trans h.entry,
        (laws.pact first).waits_rely h.pending change, h.turn, fun w' later => ?_, fun c hc => ?_⟩
      · exact h.along w' ((laws.pact first).rely_trans change later)
      · obtain ⟨known, awaiting⟩ := h.calls c hc
        exact ⟨laws.known_meanwhile known change, awaiting.spared (.of_state 0 _ w)⟩
    exact .going still

theorem afterwards {x : Joint τ ι} (h : Sound T x) (settled : x.Settled) {w : World τ}
    (change : S.afterwards x.schedule.state w) : Sound T (x.withWorld w) := by
  cases h with
  | idle => obtain ⟨c, none, _⟩ := settled; cases none
  | going h => exact absurd settled h.not_settled
  | past h =>
    have after {first : ι} : T.after first _ w := laws.after_afterwards change
    refine .past ⟨h.company.withWorld w, h.settled, laws.past_after h.past after,
      fun c hc => ?_⟩
    exact (h.calls c hc).imp (fun waits =>
      ⟨laws.ready_after waits.1 after, waits.2.spared (.of_state 0 _ w)⟩) fun ⟨r, ended, served⟩ =>
        ⟨r, ended, laws.served_after served after⟩

/-- The first call starts the load, and waits for it. -/
theorem arrive_first {w : World τ} (begins : T.begins w)
    (entry : w.inFlight? S.registry S.key = some none) {what : ι} (fits : S.fits what w) :
    Sound T (arrive S ⟨⟨w, [], #[], []⟩, []⟩ what) := by
  have due := laws.due_first begins fits
  obtain ⟨k, load, post, w', h⟩ := laws.arrives (laws.pending_due begins due) fits
  have entry' := (laws.entry_meanwhile h.meanwhile).trans entry
  have begins' := laws.begins_meanwhile begins h.meanwhile
  have due' := laws.due_meanwhile due h.meanwhile
  let body := Deed.carrying S.runner S.registry k load
  let next := fun r => (post r).answered S.runner
  have starts : (arrive S ⟨⟨w, [], #[], []⟩, []⟩ what).schedule =
      Schedule.launched S.registry k body next ⟨w', [], #[], []⟩ := starts h entry'
  have calls : (arrive S ⟨⟨w, [], #[], []⟩, []⟩ what).calls = [⟨0, what, 1⟩] := by
    simp [arrive, World.find?_of_inFlight? entry (.refl laws.key)]
  generalize arrive S ⟨⟨w, [], #[], []⟩, []⟩ what = y at starts calls
  obtain ⟨schedule, _⟩ := y
  dsimp only at starts calls
  subst starts calls
  have began := laws.begins_filed (·.start k 1) begins'
  have due'' := laws.due_filed (·.start k 1) due'
  suffices Going T 1 what k (begin (body 1)) _ from .going this
  refine ⟨⟨?_, List.cons_ne_nil _ _, ?_, ?_, rfl, ?_, ?_⟩, h.key, World.inFlight?_start entry' h.key 1,
    laws.pending_due began due'', .head _, fun w'' later => ?_, ?_⟩
  · exact Schedule.placed_launched ⟨List.nodup_nil, by simp [Schedule.Open, Schedule.standing],
      List.forall_mem_nil _⟩
  · simp
  · simp
  · simp [Schedule.launched]
  · intro u lt
    have : u < 2 := by simpa [Schedule.launched] using lt
    have either : u = 0 ∨ u = 1 := by omega
    rcases either with rfl | rfl
    · exact .inr ⟨_, .head _, rfl⟩
    · exact .inl rfl
  · have ends := h.carries w'' (laws.begins_meanwhile began later) (laws.due_meanwhile due'' later)
    exact (ends (Deed.releasing S.registry k 1) (Deed.releasing S.registry k 1)).answered
      (laws.pact what) (laws.answered what)
  · simp only [List.mem_singleton, forall_eq]
    exact ⟨laws.known_due due'', post, h.serves, .inl (by simp [Schedule.launched, next])⟩

/-- Further calls wait for the load that is in flight. -/
theorem arrive_later {x : Joint τ ι} {t : TaskId} {first : ι} {k : Value}
    {next : Except Error Unit → Process (World τ)} (h : Going T t first k next x) {what : ι}
    (fits : S.fits what x.schedule.state) : Sound T (x.arrive S what) := by
  obtain ⟨k', load, post, w', arrives⟩ := laws.arrives h.pending fits
  have found := World.find?_of_inFlight? h.entry (.refl laws.key)
  have entry := (laws.entry_meanwhile arrives.meanwhile).trans h.entry
  let n := x.schedule.outcomes.size
  let resume := fun r => (post r).answered S.runner
  have isOpen : x.schedule.Open t :=
    (h.company.placed.mem_iff t).mp (Schedule.mem_standing_of_queue h.turn)
  have pushed := Schedule.Spares.push n x.schedule
  have still : Schedule.Open { x.schedule with outcomes := x.schedule.outcomes.push none } t :=
    pushed.stays (Nat.ne_of_lt isOpen.lt) isOpen
  have joins : (x.arrive S what).schedule =
      { state := w', queue := x.schedule.queue, outcomes := x.schedule.outcomes.push none,
        waiting := x.schedule.waiting ++ [(t, ⟨n, resume⟩)] } := by
    refine (arrives.glides n { x.schedule with outcomes := x.schedule.outcomes.push none }
      rfl).trans ((Deed.drive_calling_of_find
      (World.find?_of_inFlight? entry arrives.key) n).trans ?_)
    rw [Schedule.drive, show _ = _ from still]
    rfl
  have calls : (x.arrive S what).calls = x.calls ++ [⟨n, what, t⟩] := by
    simp [arrive, found, n]
  have running := @Schedule.Placed.join _ _ n t [] resume h.company.placed.push
    (congrArg Option.join still)
  have spares : Schedule.Spares n x.schedule (x.arrive S what).schedule :=
    joins ▸ (pushed.trans (.of_state _ _ w')).trans (.wait _ _ _)
  have either {P : Call ι → Prop} (old : ∀ c ∈ x.calls, P c) (new : P ⟨n, what, t⟩) :
      ∀ c ∈ (x.arrive S what).calls, P c := fun c hc =>
    (List.mem_append.mp (calls ▸ hc)).elim (old c) fun own => List.mem_singleton.mp own ▸ new
  have size : (x.arrive S what).schedule.outcomes.size = n + 1 := by simp [joins, n]
  have state : (x.arrive S what).schedule.state = w' := by rw [joins]
  suffices Going T t first k next _ from .going this
  refine ⟨⟨?_, by simp [calls], ?_, ?_, ?_, ?_, ?_⟩, h.key, state ▸ entry, ?_, spares.queue _ h.turn, ?_, ?_⟩
  · exact joins ▸ ⟨running.1, running.2, running.3⟩
  · exact either h.company.loads rfl
  · have fresh : n ∉ t :: x.calls.map Call.task := by
      simp only [List.mem_cons, List.mem_map, not_or, not_exists, not_and]
      exact ⟨Nat.ne_of_gt isOpen.lt, fun c hc => Nat.ne_of_lt (h.company.below c hc)⟩
    rw [calls, List.map_append, ← List.cons_append]
    exact h.company.once.append (List.nodup_singleton n) (by simpa using fresh)
  · rw [size, calls, List.length_append, show n = _ from h.company.size]
    rfl
  · exact either (fun c hc => Nat.lt_of_lt_of_le (h.company.below c hc) spares.size)
      (by rw [size]; exact Nat.lt_succ_self n)
  · intro u lt
    rw [size] at lt
    rcases Nat.lt_succ_iff_lt_or_eq.mp lt with old | rfl
    · refine (h.company.all u old).imp_right fun ours => ?_
      obtain ⟨c, hc, own⟩ := ours
      exact ⟨c, by simp [calls, hc], own⟩
    · exact .inr ⟨⟨n, what, t⟩, by simp [calls], rfl⟩
  · exact state ▸ (laws.pact first).waits_rely h.pending arrives.meanwhile
  · rw [state]
    exact fun w later => h.along w ((laws.pact first).rely_trans arrives.meanwhile later)
  · rw [state]
    refine either (fun c hc => ?_) ⟨arrives.known, post, arrives.serves, .inl ?_⟩
    · obtain ⟨known, awaiting⟩ := h.calls c hc
      exact ⟨laws.known_meanwhile known arrives.meanwhile, awaiting.spared spares⟩
    · simp [joins, n, resume]

/-- The turn of the load: it waits again, or settles. -/
theorem load_turn {x : Joint τ ι} {t : TaskId} {first : ι} {k : Value}
    {next : Except Error Unit → Process (World τ)} (h : Going T t first k next x)
    {s : Schedule (World τ)} (takes : x.schedule.Takes (.run t (.ok ()) next) s) :
    Sound T { x with schedule := s } := by
  obtain ⟨before, after, taken, rfl⟩ := takes
  have running := h.company.placed.taken taken
  have waiting : ∀ c ∈ x.calls,
      Awaiting T { x.schedule with queue := before ++ after } c := fun c hc =>
    (h.calls c hc).2.taken taken fun same =>
      (List.nodup_cons.mp h.company.once).1 ((show t = c.task from same) ▸ List.mem_map_of_mem hc)
  obtain ⟨r, w, ends, guar, eq⟩ | ⟨next', w, pending, guar, along, eq⟩ :=
    (h.along _ ((laws.pact first).rely_refl _)).drive (laws.pact first) t
      { x.schedule with queue := before ++ after } rfl
  · have released := World.inFlight?_release ((laws.entry_guar guar).trans h.entry) h.key
    let w' := w.changeFlights S.registry (·.release k t)
    let last : Schedule (World τ) := { x.schedule with queue := before ++ after, state := w' }
    have ended : Schedule.play (.run t (.ok ()) next) { x.schedule with queue := before ++ after } =
        last.settle t r := eq
    have placed : last.Placed [t] := ⟨running.1, running.2, running.3⟩
    have past := laws.past_ends (·.release k t) ends released
    have spares := Schedule.Spares.settle placed.is_open r
    have size : (last.settle t r).outcomes.size = x.schedule.outcomes.size := by
      simp [Schedule.settle, last]
    rw [ended]
    suffices Over T t first r { x with schedule := last.settle t r } from .past this
    refine ⟨h.company.withSchedule (placed.settle r) size, Schedule.settled_settle placed.is_open r,
      past, fun c hc => .inl ⟨?_, ((waiting c hc).spared (.of_state t _ w')).spared spares⟩⟩
    exact laws.ready_past past
      (laws.known_filed (·.release k t) (laws.known_guar (h.calls c hc).1 guar))
  · let last : Schedule (World τ) := { x.schedule with queue := before ++ after, state := w }
    have waits : Schedule.play (.run t (.ok ()) next) { x.schedule with queue := before ++ after } =
        last.enqueue (.run t (.ok ()) next') := eq
    have placed : last.Placed [t] := ⟨running.1, running.2, running.3⟩
    rw [waits]
    suffices Going T t first k next' { x with schedule := last.enqueue (.run t (.ok ()) next') } from
      .going this
    have again := @Schedule.Placed.enqueue _ last [] (.run t (.ok ()) next') placed
    refine ⟨h.company.withSchedule again rfl, h.key,
      (laws.entry_guar guar).trans h.entry, pending, List.mem_append_right _ (.head _), along,
      fun c hc => ⟨laws.known_guar (h.calls c hc).1 guar, ?_⟩⟩
    exact ((waiting c hc).spared (.of_state t _ w)).spared (.enqueue t _ _)

omit laws in
/-- A turn in which a call goes on with the outcome of the load is its last. -/
theorem ends_of_over {x : Joint τ ι} {t : TaskId} {first : ι} {outcome : Except Error Value}
    (h : Over T t first outcome x) {before after : List (Turn (World τ))} {u : TaskId}
    {signal : Except Error Unit} {next : Except Error Unit → Process (World τ)}
    (taken : x.schedule.queue = before ++ .run u signal next :: after) :
    ∃ c ∈ x.calls, c.task = u ∧ ∃ r w, T.after first x.schedule.state w ∧
      T.served first c.what outcome r w ∧
        Schedule.play (.run u signal next) { x.schedule with queue := before ++ after } =
          Schedule.settle { x.schedule with queue := before ++ after, state := w } u r := by
  have there : .run u signal next ∈ x.schedule.queue := taken ▸ List.mem_append_right _ (.head _)
  have isOpen : x.schedule.Open u := (h.company.placed.taken taken).is_open
  obtain ⟨c, hc, rfl⟩ := (h.company.all _ isOpen.lt).resolve_left fun same =>
    h.settled.not_open (same ▸ isOpen)
  obtain ⟨ready, post, serves, awaits⟩ := (h.calls c hc).resolve_right fun ⟨r, ended, _⟩ =>
    ended.not_open isOpen
  obtain ⟨out, settled, woken⟩ := awaits.own_turn h.company.placed there
  rw [h.company.loads c hc] at settled
  obtain rfl := h.settled.unique settled
  obtain ⟨r, w, change, served, glides⟩ := serves first outcome _ ready
  refine ⟨c, hc, rfl, r, w, change, served, ?_⟩
  cases woken
  exact glides c.task { x.schedule with queue := before ++ after } rfl

/-- The turn of a call that is told the outcome of the load: it goes on, and ends. -/
theorem call_turn {x : Joint τ ι} {t : TaskId} {first : ι} {outcome : Except Error Value}
    (h : Over T t first outcome x) {turn : Turn (World τ)} {s : Schedule (World τ)}
    (takes : x.schedule.Takes turn s) : Over T t first outcome { x with schedule := s } := by
  obtain ⟨before, after, taken, rfl⟩ := takes
  have running := h.company.placed.taken taken
  cases turn with
  | relay w out =>
    have woken := @Schedule.Placed.enqueue _ _ [] (Schedule.wake w out) running
    refine ⟨h.company.withSchedule woken rfl, h.settled, h.past, fun c hc => ?_⟩
    refine (h.calls c hc).imp_left fun waits => ?_
    obtain ⟨ready, post, serves, awaits⟩ := waits
    exact ⟨ready, post, serves, awaits.relayed taken⟩
  | run u signal next =>
    obtain ⟨c, hc, rfl, r, w, change, served, ends⟩ := ends_of_over h taken
    let last : Schedule (World τ) := { x.schedule with queue := before ++ after, state := w }
    have placed : last.Placed [c.task] := ⟨running.1, running.2, running.3⟩
    have spares := Schedule.Spares.settle placed.is_open r
    rw [ends]
    refine ⟨h.company.withSchedule (placed.settle r) (by simp [Schedule.settle]),
      spares.settled h.settled, laws.past_after h.past change, fun c' hc' => ?_⟩
    by_cases same : c.task = c'.task
    · obtain rfl := List.inj_on_of_nodup_map (List.nodup_cons.mp h.company.once).2 hc' hc same.symm
      exact .inr ⟨r, Schedule.settled_settle placed.is_open r, served⟩
    · rcases h.calls c' hc' with ⟨ready, awaiting⟩ | ⟨r', ended, served⟩
      · refine .inl ⟨laws.ready_after ready change, ?_⟩
        exact ((awaiting.taken taken same).spared (.of_state c.task _ w)).spared spares
      · exact .inr ⟨r', spares.settled ended, laws.served_after served change⟩

theorem turn {x : Joint τ ι} (h : Sound T x) {turn : Turn (World τ)} {s : Schedule (World τ)}
    (takes : x.schedule.Takes turn s) : Sound T { x with schedule := s } := by
  cases h with
  | idle =>
    obtain ⟨before, after, taken, _⟩ := takes
    simp at taken
  | past h => exact .past (call_turn laws h takes)
  | @going _ t first k next h =>
    obtain ⟨before, after, taken, _⟩ := id takes
    obtain rfl := h.turn_eq (taken ▸ List.mem_append_right _ (.head _))
    exact load_turn laws h takes

end Sound

/-- What holds after any number of steps: by induction on the steps. -/
theorem Reached.sound (laws : T.Lawful) {start : World τ} (begins : T.begins start)
    (free : start.inFlight? S.registry S.key = some none) {x : Joint τ ι} (h : Reached S start x) :
    Sound T x := by
  induction h with
  | start => exact .idle begins free
  | step _ step sound =>
    cases step with
    | arrive unsettled fits =>
      cases sound with
      | idle begins entry => exact Sound.arrive_first laws begins entry fits
      | going h => exact Sound.arrive_later laws h fits
      | past h => exact absurd h.isSettled unsettled
    | turn takes => exact sound.turn laws takes
    | meanwhile unsettled change => exact sound.meanwhile laws unsettled change
    | afterwards settled change => exact sound.afterwards laws settled change

/-- A call that has ended was served with the outcome of the load. -/
theorem Sound.served {x : Joint τ ι} (h : Sound T x) {c : Call ι} (hc : c ∈ x.calls)
    {r : Except Error Value} (ended : x.schedule.Settled c.task r) : ∃ first outcome,
      x.schedule.Settled c.load outcome ∧ T.past first outcome x.schedule.state ∧
        T.served first c.what outcome r x.schedule.state := by
  cases h with
  | idle => cases hc
  | going h =>
    obtain ⟨_, _, awaits⟩ := (h.calls c hc).2
    exact absurd (awaits.isOpen h.company.placed) ended.not_open
  | @past _ t first outcome h =>
    obtain ⟨_, _, _, awaits⟩ | ⟨r', ended', served⟩ := h.calls c hc
    · exact absurd (awaits.isOpen h.company.placed) ended.not_open
    · obtain rfl := ended'.unique ended
      exact ⟨first, outcome, (h.company.loads c hc).symm ▸ h.settled, h.past, served⟩

end Joint

end Relata
