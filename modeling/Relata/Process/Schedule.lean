import Relata.Process.Basic

/-!
A scheduler for processes. The tasks that can go on stand in one queue and take turns, each running
until it waits. A task that waits for another one is told of its outcome in two turns, one that
carries the outcome over and one in which the task goes on; so the tasks waiting for it go on in the
order in which they began to wait. A cancelled task goes on with an error where it waits; one that
has not begun ends without taking a step.
-/

namespace Relata

/-- A task that waits for the outcome of another one. -/
structure Waiter (σ : Type) where
  task : TaskId
  next : Except Error Value → Process σ

/-- What stands in the queue. -/
inductive Turn (σ : Type) where
  /-- A task goes on, with an error if it has been cancelled meanwhile. -/
  | run (task : TaskId) (signal : Except Error Unit) (next : Except Error Unit → Process σ)
  /-- An outcome is carried over to a waiting task. -/
  | relay (waiter : Waiter σ) (outcome : Except Error Value)

structure Schedule (σ : Type) where
  state : σ
  queue : List (Turn σ)
  /-- The outcome of each task that has settled. -/
  outcomes : Array (Option (Except Error Value))
  /-- The waiting tasks, in the order in which they began to wait, each with the task it
  waits for. -/
  waiting : List (TaskId × Waiter σ)

namespace Schedule

variable {σ : Type}

def enqueue (s : Schedule σ) (t : Turn σ) : Schedule σ := { s with queue := s.queue ++ [t] }

/-- Goes on with the outcome of another task at the next turn. -/
def wake (w : Waiter σ) (outcome : Except Error Value) : Turn σ :=
  .run w.task (.ok ()) fun
    | .ok _ => w.next outcome
    | .error e => w.next (.error e)

/-- The task has ended. -/
def settle (s : Schedule σ) (task : TaskId) (outcome : Except Error Value) : Schedule σ :=
  let told := (s.waiting.filter (·.1 == task)).map fun (_, w) => Turn.relay w outcome
  { s with
    queue := s.queue ++ told
    outcomes := s.outcomes.setIfInBounds task (some outcome)
    waiting := s.waiting.filter (·.1 != task) }

def isRelayTo (task : TaskId) : Turn σ → Bool
  | .relay w _ => w.task == task
  | .run _ _ _ => false

/-- Cancels a task: it goes on with an error where it waits or stands in the queue. -/
def cancel (s : Schedule σ) (task : TaskId) : Schedule σ :=
  match s.waiting.find? (·.2.task == task) with
  | some (_, w) =>
    { s with waiting := s.waiting.filter (·.2.task != task) }.enqueue (wake w (.error .cancelled))
  | none =>
    let relayed := s.queue.findSome? fun
      | .relay w _ => if w.task == task then some w else none
      | _ => none
    match relayed with
    | some w =>
      { s with queue := s.queue.filter (!isRelayTo task ·) }.enqueue (wake w (.error .cancelled))
    | none =>
      { s with queue := s.queue.map fun
          | .run t signal next =>
            if t == task then .run t (.error .cancelled) next else .run t signal next
          | turn => turn }

/-- Lets a task go on until it waits or ends. A statement that nobody answers fails. -/
def drive (task : TaskId) : Process σ → Schedule σ → Schedule σ
  | .done outcome, s => s.settle task outcome
  | .get next, s => drive task (next s.state) s
  | .set state next, s => drive task next { s with state := state }
  | .ask _ next, s => drive task (next (.error .notImplemented)) s
  | .pause next, s => s.enqueue (.run task (.ok ()) next)
  | .spawn body next, s =>
    let new := s.outcomes.size
    let begin : Turn σ := .run new (.ok ()) fun
      | .ok _ => body new
      | .error e => .done (.error e)
    drive task (next new) ({ s with outcomes := s.outcomes.push none }.enqueue begin)
  | .join other next, s =>
    match (s.outcomes[other]?).join with
    | some outcome => drive task (next outcome) s
    | none => { s with waiting := s.waiting ++ [(other, ⟨task, next⟩)] }
  | .cancel other next, s => drive task next (s.cancel other)

/-- Takes the first turn of the queue. -/
def step (s : Schedule σ) : Schedule σ :=
  match s.queue with
  | [] => s
  | .run task signal next :: rest => drive task (next signal) { s with queue := rest }
  | .relay w outcome :: rest => { s with queue := rest }.enqueue (wake w outcome)

/-- Takes turns until none is left, or as many as there may be. -/
def runFor : Nat → Schedule σ → Schedule σ
  | 0, s => s
  | turns + 1, s => if s.queue.isEmpty then s else runFor turns s.step

/-- A process as the only task. -/
def start (main : Process σ) (state : σ) : Schedule σ :=
  ⟨state, [.run 0 (.ok ()) fun _ => main], #[none], []⟩

/-- How many turns a run may take. -/
def turnLimit : Nat := 1000000000

/-- The outcome of a process and the state, after it and all tasks it started have come to rest. -/
def finish (main : Process σ) (state : σ) : Except Error Value × σ :=
  let rest := runFor turnLimit (start main state)
  (((rest.outcomes[0]?).join).getD (.error .cancelled), rest.state)

end Schedule

end Relata
