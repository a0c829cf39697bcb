import Relata.Process.Schedule
import Relata.Session.Stage

/-!
Transcripts of building one query: what came of each call, and what the query is made of in the end.
A call that answers another query goes on with that one.
-/

namespace Relata.Session

private def statementOf (id : QueryId) : Play Portrait :=
  Act.getsExcept fun w => match w.queries[id]? with
    | some q => .ok (portrayStatement w.toEnv q)
    | none => .error .noAttribute

private def note (b : Built) : Play Unit := modifyStage fun s => { s with built := s.built ++ [b] }

/-- Makes one call on a query and answers the query that is current afterwards. -/
private def transcribeCall (current : QueryId) : CallExpr → Play QueryId
  | .mk method args named => do
    let made : Play Value := do
      let args ← evalAll false args
      let named ← evalNamed false named
      callQuery current [.mk method args named]
    match ← made.attempt with
    | .ok (.query next) =>
      note (.query (← statementOf next))
      return next
    | .ok v =>
      note (.value (← Act.gets fun w => portray w.toEnv v))
      return current
    | .error e =>
      note (.failed e (← statementOf current))
      return current

structure Transcript where
  steps : List Built
  /-- What the last query is made of. -/
  overview : Portrait

/-- Builds a query on a model by the calls, one after the other. -/
def Transcript.make (l : Lookup) (model : ModelId) (calls : List CallExpr) :
    Except Error Transcript :=
  let main : Play Value := do
    let base ← Act.getsExcept fun w => match w.catalog.model? model with
      | some m => m.query
      | none => .error .noKey
    let last ← calls.foldlM transcribeCall (← Deed.newQuery base)
    Act.getsExcept fun w => match w.queries[last]? with
      | some q => .ok (Session.overview w.toEnv q)
      | none => .error .noAttribute
  let (outcome, final) := Schedule.finish (main .done) (World.start l Stage.empty)
  outcome.map fun v => ⟨final.rest.built, portray final.toEnv v⟩

end Relata.Session
