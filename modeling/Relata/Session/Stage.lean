import Relata.Session.Portrait
import Relata.Session.Script

/-!
The stage of a session: the runners of its connections, and what is noted while a step is carried
out. Expressions are evaluated here. Inside a recipe a query stays a draft and a variable a hole, to
be built and filled when the recipe is followed; everywhere else that is done at once.
-/

namespace Relata.Session

/-- A statement that was sent. -/
structure Sent where
  connection : String
  sql : String
  params : List Value

/-- The answer of a step: the portrait of its result or the error it ended with. -/
abbrev Outcome := Except Error Portrait

/-- The answer of a step with what was noted meanwhile. -/
structure Answered where
  outcome : Outcome
  sent : List (String × String × List Portrait)
  warnings : List String
  /-- The answers of the steps carried out inside a statement. -/
  during : List Answered
  /-- The statements came from tasks that ran beside each other. -/
  unordered : Bool

/-- What came of a builder call: the statement of the query that is current then, a value that is no
query, or an error with the statement of the query as it then stood. -/
inductive Built where
  | query (statement : Portrait)
  | value (v : Portrait)
  | failed (error : Error) (after : Portrait)

structure Stage where
  /-- Values collected in the course of a step, one tray for each that collects. -/
  trays : Array (List Value)
  runners : Array Runner
  openCursors : Array Int
  sent : List Sent
  during : List Answered
  answers : List Answered
  built : List Built

abbrev Place := World Stage
abbrev Play := Deed Stage

namespace Stage

def empty : Stage := ⟨#[], #[], #[], [], [], [], []⟩

end Stage

def modifyStage (f : Stage → Stage) : Play Unit := Act.modify fun w => { w with rest := f w.rest }

/-- Sets out an empty tray. -/
def newTray : Play Nat := Act.modifyGet fun w =>
  (w.rest.trays.size, { w with rest := { w.rest with trays := w.rest.trays.push [] } })

/-- What lies on a tray, in the order in which it was put there. -/
def tray (id : Nat) : Play (List Value) := Act.gets fun w => (w.rest.trays[id]?).getD []

def addToTray (id : Nat) (v : Value) : Play Unit :=
  modifyStage fun s => { s with trays := s.trays.modify id (· ++ [v]) }

/-- Opens a runner under its name. -/
def openRunner (r : Runner) : Play Unit := Act.modify fun w =>
  { w with
    connections := (w.connections.filter (·.1 != r.name)) ++ [(r.name, w.rest.runners.size)]
    rest := { w.rest with
      runners := w.rest.runners.push r
      openCursors := w.rest.openCursors.push 0 } }

/-- The value of a variable, and of what a path leads to behind it. -/
def readVariable (name : String) (path : List PathItem) : Play Value := do
  match ← Act.getsExcept fun w => w.toEnv.read name path with
  | .query q => return .query (← Deed.newQuery q)
  | found => return found.asValue

/-- Makes builder calls on a kept query and answers what they answer; the query keeps the changes
made before a failure. -/
def callQuery (id : QueryId) (calls : List Call) : Play Value := do
  let q ← Act.getsExcept fun w => match w.queries[id]? with
    | some q => .ok q
    | none => .error .noAttribute
  let env ← Act.gets World.toEnv
  let keep (after : Query) : Play Unit :=
    Act.modify fun w => { w with queries := w.queries.setIfInBounds id after }
  match (env.chain calls).run q with
  | .ok answer after =>
    keep after
    match answer with
    | .self => return .query id
    | .other q => return .query (← Deed.newQuery q)
    | .value v => return v
  | .error e after =>
    keep after
    throw e

mutual

/-- The value of an expression; `inside` tells that it stands in a recipe. -/
def eval (inside : Bool) : Expr → Play Value
  | .value v => return v
  | .list items => return .list (← evalAll inside items)
  | .tuple items => return .tuple (← evalAll inside items)
  | .dict entries => do
    let entries ← evalEntries inside entries
    if inside then return .dict entries
    Act.getsExcept fun w => w.dictOf entries
  | .fresh m row => do
    let made : Play Value := do
      let row ← evalNamed false row
      let entity ← Act.getsExcept fun w => match w.catalog.model? m with
        | some m => m.hydrate (row.map fun (name, v) => (.text name, v))
        | none => .error .noKey
      return .object (← Deed.newObject entity)
    match ← made.attempt with
    | .ok v => return v
    | .error e => if inside then return .thrown e else throw e
  | .stored name path => if inside then return .variable name path else readVariable name path
  | .query m calls => do
    let calls ← evalCalls calls
    if inside then return .draft (.model m) calls
    let base ← Act.getsExcept fun w => match w.catalog.model? m with
      | some m => m.query
      | none => .error .noKey
    callQuery (← Deed.newQuery base) calls
  | .extend name calls => do
    let calls ← evalCalls calls
    if inside then return .draft (.variable name []) calls
    match ← readVariable name [] with
    | .query id => callQuery id calls
    | _ => throw .noAttribute
  | .recipe calls answers => return .recipe (← evalCalls calls) answers

def evalAll (inside : Bool) : List Expr → Play (List Value)
  | [] => return []
  | e :: rest => return (← eval inside e) :: (← evalAll inside rest)

def evalEntries (inside : Bool) : List (Expr × Expr) → Play (List (Value × Value))
  | [] => return []
  | (k, v) :: rest => return (← eval inside k, ← eval inside v) :: (← evalEntries inside rest)

def evalNamed (inside : Bool) : List (String × Expr) → Play (List (String × Value))
  | [] => return []
  | (k, v) :: rest => return (k, ← eval inside v) :: (← evalNamed inside rest)

def evalCall : CallExpr → Play Call
  | .mk method args named => return .mk method (← evalAll true args) (← evalNamed true named)

def evalCalls : List CallExpr → Play (List Call)
  | [] => return []
  | c :: rest => return (← evalCall c) :: (← evalCalls rest)

end

end Relata.Session
