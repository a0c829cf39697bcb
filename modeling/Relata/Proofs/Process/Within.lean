import Relata.Proofs.Process.Sends
import Relata.Proofs.Process.Turns

/-!
Processes that keep within bounds. Each change that such a process makes to the state is one that
`G` allows, it cancels nobody, and whatever happens it comes to one of its last pieces in the end.
Taken turn by turn, in any order and beside others of its kind, a task stays such a process until
its last piece is reached.
-/

namespace Relata

namespace Process

variable {σ : Type} {G : σ → σ → Prop}

/-- A process that makes only changes allowed by `G` and goes on to one of the pieces `last`. -/
inductive Within (G : σ → σ → Prop) :
    {α : Type} → (Except Error α → Process σ) → Process σ → Prop
  | ends {α : Type} (last : Except Error α → Process σ) (r : Except Error α) :
    Within G last (last r)
  | get {α : Type} {last : Except Error α → Process σ} {next : σ → Process σ} :
    (∀ s, Within G last (next s)) → Within G last (.get next)
  | change {α : Type} {last : Except Error α → Process σ} {f : σ → σ} {next : σ → Process σ} :
    (∀ s, G s (f s)) → (∀ s, Within G last (next s)) →
      Within G last (.get fun s => .set (f s) (next s))
  | ask {α : Type} {last : Except Error α → Process σ} {r : Request}
    {next : Except Error (List Row) → Process σ} :
    (∀ rows, Within G last (next rows)) → Within G last (.ask r next)
  | pause {α : Type} {last : Except Error α → Process σ} {next : Except Error Unit → Process σ} :
    (∀ signal, Within G last (next signal)) → Within G last (.pause next)
  | spawn {α : Type} {last : Except Error α → Process σ} {body next : TaskId → Process σ} :
    (∀ t, Within G Process.done (body t)) → (∀ t, Within G last (next t)) →
      Within G last (.spawn body next)
  | join {α : Type} {last : Except Error α → Process σ} {t : TaskId}
    {next : Except Error Value → Process σ} :
    (∀ outcome, Within G last (next outcome)) → Within G last (.join t next)

variable {α β : Type}

theorem Within.trans {last : Except Error α → Process σ} {later : Except Error β → Process σ}
    {p : Process σ} (h : Within G last p) (hl : ∀ r, Within G later (last r)) :
    Within G later p := by
  induction h with
  | ends last r => exact hl r
  | get _ ih => exact .get fun s => ih s hl
  | change allowed _ ih => exact .change allowed fun s => ih s hl
  | ask _ ih => exact .ask fun rows => ih rows hl
  | pause _ ih => exact .pause fun signal => ih signal hl
  | spawn body _ _ ih => exact .spawn body fun t => ih t hl
  | join _ ih => exact .join fun outcome => ih outcome hl

/-- Answering the statements leaves a process within its bounds, if answering does. -/
theorem Within.answered {last : Except Error α → Process σ} {p : Process σ} (h : Within G last p)
    {runner : Request → Act σ (List Row)} (bounded : ∀ r last, Within G last (runner r last)) :
    Within G (fun r => (last r).answered runner) (p.answered runner) := by
  induction h with
  | ends last r => exact .ends _ r
  | get _ ih => exact .get ih
  | change allowed _ ih => exact .change allowed ih
  | ask _ ih => exact (bounded _ _).trans ih
  | pause _ ih => exact .pause ih
  | spawn _ _ ihBody ih => exact .spawn ihBody ih
  | join _ ih => exact .join ih

/-- A task that takes its first step, or ends without one if it has been cancelled before. -/
def begin (p : Process σ) : Except Error Unit → Process σ
  | .ok _ => p
  | .error e => .done (.error e)

end Process

/-- What is known of the tasks of a schedule: the last pieces that each goes on to, which of them may
not have begun yet, and which may have been cancelled. -/
structure Roles (σ : Type) where
  last : TaskId → Except Error Value → Process σ
  young : TaskId → Prop
  stopped : TaskId → Prop

open Process (Within begin)

variable {σ : Type} {G : σ → σ → Prop} {roles : Roles σ}

/-- A task that has begun and goes on within its bounds, whatever it is told. -/
def Bounded (G : σ → σ → Prop) (roles : Roles σ) (t : TaskId) {β : Type} (next : β → Process σ) :
    Prop :=
  ¬ roles.young t ∧ ∀ told, Within G (roles.last t) (next told)

/-- A turn with which a task goes on within its bounds, or begins. -/
def Turn.Follows (G : σ → σ → Prop) (roles : Roles σ) : Turn σ → Prop
  | .run t signal next =>
    (∀ e, signal = .error e → e = .cancelled ∧ roles.stopped t) ∧
      (Bounded G roles t next ∨
        roles.young t ∧ ∃ p, Within G (roles.last t) p ∧ next = begin p)
  | .relay w _ => Bounded G roles w.task w.next

/-- A turn that is taken lets its task go on within its bounds, unless the task was cancelled before
it began and ends with that. -/
theorem Turn.Follows.signalled {t : TaskId} {signal : Except Error Unit}
    {next : Except Error Unit → Process σ} (h : (Turn.run t signal next).Follows G roles) :
    (Within G (roles.last t) (next signal) ∧ (roles.young t → signal = .ok ())) ∨
      signal = .error .cancelled ∧ roles.young t ∧ roles.stopped t ∧
        next signal = .done (.error .cancelled) := by
  obtain ⟨struck, ⟨old, goes⟩ | ⟨young, p, within, rfl⟩⟩ := h
  · exact .inl ⟨goes signal, fun young => absurd young old⟩
  · cases signal with
    | ok _ => exact .inl ⟨within, fun _ => rfl⟩
    | error e =>
      obtain ⟨rfl, stopped⟩ := struck e rfl
      exact .inr ⟨rfl, young, stopped, rfl⟩

namespace Schedule

/-- Every task goes on within its bounds wherever it stands. -/
structure Orderly (G : σ → σ → Prop) (roles : Roles σ) (s : Schedule σ) : Prop where
  queue : ∀ turn ∈ s.queue, turn.Follows G roles
  waiting : ∀ e ∈ s.waiting, Bounded G roles e.2.task e.2.next

theorem follows_wake {w : Waiter σ} (h : Bounded G roles w.task w.next)
    (outcome : Except Error Value) : (wake w outcome).Follows G roles := by
  refine ⟨by simp, .inl ⟨h.1, fun signal => ?_⟩⟩
  cases signal with
  | ok _ => exact h.2 outcome
  | error e => exact h.2 (.error e)

namespace Orderly

theorem enqueue {s : Schedule σ} {turn : Turn σ} (h : s.Orderly G roles)
    (follows : turn.Follows G roles) : (s.enqueue turn).Orderly G roles where
  queue t there := by
    rcases List.mem_append.mp there with there | own
    · exact h.queue t there
    · exact List.mem_singleton.mp own ▸ follows
  waiting := h.waiting

theorem settle {s : Schedule σ} (h : s.Orderly G roles) (t : TaskId)
    (outcome : Except Error Value) : (s.settle t outcome).Orderly G roles where
  queue turn there := by
    rcases List.mem_append.mp there with there | told
    · exact h.queue turn there
    · obtain ⟨e, waited, rfl⟩ := List.mem_map.mp told
      exact h.waiting e (List.mem_filter.mp waited).1
  waiting e there := h.waiting e (List.mem_filter.mp there).1

theorem wait {s : Schedule σ} {t other : TaskId} {next : Except Error Value → Process σ}
    (h : s.Orderly G roles) (follows : Bounded G roles t next) :
    Orderly G roles { s with waiting := s.waiting ++ [(other, ⟨t, next⟩)] } where
  queue := h.queue
  waiting e there := by
    rcases List.mem_append.mp there with there | own
    · exact h.waiting e there
    · exact List.mem_singleton.mp own ▸ follows

theorem of_rest {s : Schedule σ} {before after : List (Turn σ)} {turn : Turn σ}
    (h : s.Orderly G roles) (taken : s.queue = before ++ turn :: after) :
    Orderly G roles { s with queue := before ++ after } where
  queue t there := by
    refine h.queue t (taken ▸ ?_)
    rcases List.mem_append.mp there with there | there
    · exact List.mem_append_left _ there
    · exact List.mem_append_right _ (.tail _ there)
  waiting := h.waiting

theorem cancel {s : Schedule σ} {t : TaskId} (h : s.Orderly G roles) (stopped : roles.stopped t) :
    (s.cancel t).Orderly G roles := by
  obtain ⟨other, w, there, -, eq⟩ | ⟨w, outcome, there, -, eq⟩ | eq := cancel_cases s t <;> rw [eq]
  · refine enqueue ⟨h.queue, fun e kept => ?_⟩ (follows_wake (h.waiting _ there) _)
    exact h.waiting e (List.mem_filter.mp kept).1
  · refine enqueue ⟨fun turn kept => ?_, h.waiting⟩ (follows_wake (h.queue _ there) _)
    exact h.queue turn (List.mem_filter.mp kept).1
  · refine ⟨fun turn there => ?_, h.waiting⟩
    obtain ⟨was, stood, rfl⟩ := List.mem_map.mp there
    have follows := h.queue was stood
    cases was with
    | relay w outcome => exact follows
    | run u signal next =>
      simp only [struck]
      split
      · next own =>
        obtain rfl := beq_iff_eq.mp own
        exact ⟨fun e failed => by cases failed; exact ⟨rfl, stopped⟩, follows.2⟩
      · exact follows

/-- What is known of the tasks that stand somewhere is all that counts. -/
theorem mono {roles' : Roles σ} {s : Schedule σ} (h : s.Orderly G roles)
    (last : ∀ t ∈ s.standing, roles'.last t = roles.last t)
    (young : ∀ t ∈ s.standing, roles'.young t ↔ roles.young t)
    (stopped : ∀ t ∈ s.standing, roles.stopped t → roles'.stopped t) : s.Orderly G roles' where
  queue turn there := by
    have follows := h.queue turn there
    have stands := mem_standing_of_queue there
    cases turn with
    | run t signal next =>
      obtain ⟨struck, goes⟩ := follows
      refine ⟨fun e failed => (struck e failed).imp_right (stopped t stands), ?_⟩
      rw [Bounded, last t stands, young t stands]
      exact goes
    | relay w outcome =>
      rw [Turn.Follows, Bounded, last w.task stands, young w.task stands]
      exact follows
  waiting e there := by
    have stands := mem_standing_of_waiting there
    rw [Bounded, last e.2.task stands, young e.2.task stands]
    exact h.waiting e there

end Orderly

theorem drive_spawn (task : TaskId) (body next : TaskId → Process σ) (s : Schedule σ) :
    drive task (.spawn body next) s = drive task (next s.outcomes.size)
      (enqueue { s with outcomes := s.outcomes.push none }
        (.run s.outcomes.size (.ok ()) (begin (body s.outcomes.size)))) := by
  rw [drive]
  rfl

/-- How a turn of a process within its bounds comes out: after allowed changes that leave the other
tasks where they are, a last piece is reached, or the task stands in the queue again, or it waits
for the outcome of another task. -/
inductive Goes (G : σ → σ → Prop) (roles : Roles σ) {α : Type}
    (own : Except Error α → Process σ) (task : TaskId) (s : Schedule σ) : Schedule σ → Prop
  | ends {s' : Schedule σ} (r : Except Error α) : Spares task s s' → G s.state s'.state →
    s'.Placed [task] → s'.Orderly G roles → Goes G roles own task s (drive task (own r) s')
  | pauses {s' : Schedule σ} {next : Except Error Unit → Process σ} : Spares task s s' →
    G s.state s'.state → s'.Placed [task] → s'.Orderly G roles →
    (∀ signal, Within G own (next signal)) →
      Goes G roles own task s (s'.enqueue (.run task (.ok ()) next))
  | waits {s' : Schedule σ} {other : TaskId} {next : Except Error Value → Process σ} :
    Spares task s s' → G s.state s'.state → s'.Placed [task] → s'.Orderly G roles →
    (s'.outcomes[other]?).join = none → (∀ outcome, Within G own (next outcome)) →
      Goes G roles own task s { s' with waiting := s'.waiting ++ [(other, ⟨task, next⟩)] }

theorem Goes.after {α : Type} {own : Except Error α → Process σ} {task : TaskId}
    {s s' s'' : Schedule σ} (spares : Spares task s s') (allowed : ∀ w, G s'.state w → G s.state w)
    (h : Goes G roles own task s' s'') : Goes G roles own task s s'' := by
  cases h with
  | ends r kept change placed orderly =>
    exact .ends r (spares.trans kept) (allowed _ change) placed orderly
  | pauses kept change placed orderly next =>
    exact .pauses (spares.trans kept) (allowed _ change) placed orderly next
  | waits kept change placed orderly unsettled next =>
    exact .waits (spares.trans kept) (allowed _ change) placed orderly unsettled next

end Schedule

/-- Driving a process within its bounds comes out so: by induction on the process, tasks that it
starts being of the kind whose last piece is their outcome. -/
theorem Process.Within.drive {α : Type} {own : Except Error α → Process σ} {p : Process σ}
    (h : Within G own p) (refl : ∀ w, G w w) (trans : ∀ {u v w}, G u v → G v w → G u w)
    {task : TaskId} {s : Schedule σ} (placed : s.Placed [task]) (orderly : s.Orderly G roles)
    (plain : ∀ t, s.outcomes.size ≤ t → roles.last t = Process.done ∧ roles.young t) :
    Schedule.Goes G roles own task s (Schedule.drive task p s) := by
  induction h generalizing s with
  | ends own r => exact .ends r (.refl _ _) (refl _) placed orderly
  | get _ ih => exact ih s.state placed orderly plain
  | @change _ own f next allowed _ ih =>
    have moved := @ih s.state { s with state := f s.state } ⟨placed.1, placed.2, placed.3⟩
      ⟨orderly.1, orderly.2⟩ plain
    exact moved.after (.of_state _ _ _) fun w later => trans (allowed _) later
  | ask _ ih => exact ih _ placed orderly plain
  | pause next _ => exact .pauses (.refl _ _) (refl _) placed orderly next
  | @spawn _ own body next within _ _ ih =>
    have begun : (Turn.run s.outcomes.size (.ok ()) (begin (body s.outcomes.size))).Follows G
        roles := by
      obtain ⟨last, young⟩ := plain _ (Nat.le_refl _)
      exact ⟨by simp, .inr ⟨young, _, last ▸ within _, rfl⟩⟩
    have added : Schedule.Spares task s (Schedule.enqueue
        { s with outcomes := s.outcomes.push none }
        (.run s.outcomes.size (.ok ()) (begin (body s.outcomes.size)))) :=
      (Schedule.Spares.push _ _).trans (.enqueue _ _ _)
    rw [Schedule.drive_spawn]
    refine (ih _ ?_ ?_ fun t above => plain t ?_).after added fun w later => later
    · exact Schedule.Placed.enqueue placed.push
    · exact Schedule.Orderly.enqueue ⟨orderly.1, orderly.2⟩ begun
    · exact Nat.le_trans added.size above
  | @join _ own other next within ih =>
    simp only [Schedule.drive]
    split
    · exact ih _ placed orderly plain
    · next unsettled => exact .waits (.refl _ _) (refl _) placed orderly unsettled within

end Relata
