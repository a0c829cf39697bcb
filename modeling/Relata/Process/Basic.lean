import Relata.Value

/-!
Processes: what runs beside other things. A process reads and writes a state in one go until it has
to wait: for the rows of a statement, for its next turn, or for another task. The description holds
no order of execution of its own; a scheduler, or a proof, chooses what runs when a process waits.

An action is a piece of a process with a result. It is told what to do with the result, or with the
error that took its place, and is a process then; so the usual `do` notation puts actions one after
the other, and an error skips to the handler around it.
-/

namespace Relata

/-- A statement handed to a connection. -/
structure Request where
  connection : Nat
  sql : String
  params : List Value

/-- A process over states of type `σ`, which ends with a value or an error. -/
inductive Process (σ : Type) where
  | done (result : Except Error Value)
  | get (next : σ → Process σ)
  | set (state : σ) (next : Process σ)
  /-- Waits for the rows of a statement. -/
  | ask (request : Request) (next : Except Error (List Row) → Process σ)
  /-- Waits for its next turn. -/
  | pause (next : Except Error Unit → Process σ)
  /-- Starts a task of its own, which takes its first step later. -/
  | spawn (body : TaskId → Process σ) (next : TaskId → Process σ)
  /-- Waits for the outcome of a task, which is left running if the wait is given up. -/
  | join (task : TaskId) (next : Except Error Value → Process σ)
  | cancel (task : TaskId) (next : Process σ)

/-- A piece of a process with a result of type `α`. -/
def Act (σ α : Type) : Type := (Except Error α → Process σ) → Process σ

namespace Act

variable {σ α β : Type}

instance : Monad (Act σ) where
  pure a := fun next => next (.ok a)
  bind x f := fun next => x fun
    | .ok a => f a next
    | .error e => next (.error e)

def fail (e : Error) : Act σ α := fun next => next (.error e)

/-- The outcome of an action, an error being an outcome too. -/
def attempt (x : Act σ α) : Act σ (Except Error α) := fun next => x fun r => next (.ok r)

instance : MonadExcept Error (Act σ) where
  throw := fail
  tryCatch x handler := fun next => x fun
    | .ok a => next (.ok a)
    | .error e => handler e next

def ofExcept (r : Except Error α) : Act σ α := fun next => next r

def get : Act σ σ := fun next => .get fun s => next (.ok s)

def set (s : σ) : Act σ Unit := fun next => .set s (next (.ok ()))

def modify (f : σ → σ) : Act σ Unit := fun next => .get fun s => .set (f s) (next (.ok ()))

/-- Changes the state and answers something of it. -/
def modifyGet (f : σ → α × σ) : Act σ α := fun next => .get fun s =>
  let (a, s) := f s
  .set s (next (.ok a))

def gets (f : σ → α) : Act σ α := fun next => .get fun s => next (.ok (f s))

/-- Something of the state that may not be there. -/
def getsExcept (f : σ → Except Error α) : Act σ α := fun next => .get fun s => next (f s)

/-- The rows of a statement. -/
def ask (r : Request) : Act σ (List Row) := fun next => .ask r next

/-- Lets the others have their turn. -/
def pause : Act σ Unit := fun next => .pause next

/-- Starts a task, told its own number. -/
def spawn (body : TaskId → Act σ Value) : Act σ TaskId :=
  fun next => .spawn (fun t => body t .done) fun t => next (.ok t)

/-- The outcome of a task. -/
def join (t : TaskId) : Act σ Value := fun next => .join t next

def cancel (t : TaskId) : Act σ Unit := fun next => .cancel t (next (.ok ()))

/-- Runs `cleanup` after an action, whatever its outcome. -/
def always (x : Act σ α) (cleanup : Act σ Unit) : Act σ α := do
  let outcome ← x.attempt
  cleanup
  ofExcept outcome

end Act

namespace Process

variable {σ : Type}

/-- The process with each statement answered by `runner`. -/
def answered (runner : Request → Act σ (List Row)) : Process σ → Process σ
  | done r => done r
  | get next => get fun s => (next s).answered runner
  | set s next => set s (next.answered runner)
  | ask r next => runner r fun rows => (next rows).answered runner
  | pause next => pause fun r => (next r).answered runner
  | spawn body next => spawn (fun t => (body t).answered runner) fun t => (next t).answered runner
  | join t next => join t fun r => (next r).answered runner
  | cancel t next => cancel t (next.answered runner)

end Process

end Relata
