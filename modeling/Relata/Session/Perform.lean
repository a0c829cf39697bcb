import Relata.Process.Schedule
import Relata.Session.Invoke
import Relata.Store.Dump

/-!
Carrying out a session. Each step is carried out and answered with a portrait of its result. A
runner notes each statement before it answers it; it may let turns pass and carry out steps of its
own before the answer. Steps that are gathered run beside each other as tasks.
-/

namespace Relata.Session

/-- Loads paths with an eager loader and answers the objects. -/
private def loadPaths (args : LoadArgs) : Play Value := do
  let objects ← eval false args.objects
  let paths ← eval false args.paths
  let columns ← eval false args.columns
  let callbacks ← eval false args.callbacks
  let registry ← eval false args.registry
  let force ← eval false args.force
  let chunkSize ← (args.chunkSize.map (eval false)).getD (pure Loader.defaultChunk)
  let columns ← Act.getsExcept fun w => w.entriesOrNone columns
  let callbacks ← Act.getsExcept fun w => w.entriesOrNone callbacks
  let force ← Act.gets fun w => w.truthy force
  let loader : Loader := ⟨columns, callbacks, registry, force, chunkSize⟩
  let paths ← itemsOf paths
  Loader.load loader (← itemsOf objects) paths
  return objects

/-- Walks over pages or objects, collecting a property. -/
private def walkPages (args : PageArgs) : Play Value := do
  let target ← eval false args.query
  let pluck ← Act.ofExcept (match ← eval false args.pluck with
    | .text name => .ok name
    | _ => .error .badType)
  let size ← args.size.mapM (eval false)
  match target with
  | .query id =>
    let q ← Act.getsExcept fun w => match w.queries[id]? with
      | some q => .ok q
      | none => .error .noAttribute
    let collected ← newTray
    match size with
    | some size =>
      q.chunk size fun page => do
        let values ← (← itemsOf page).mapM fun o => Deed.propertyOrNull o pluck
        addToTray collected (.list values)
        return args.stopAt != some (← tray collected).length
    | none => q.each fun o => do
        addToTray collected (← Deed.propertyOrNull o pluck)
    return .list (← tray collected)
  | _ => throw .noAttribute

/-- Whether both expressions read one variable along one path; what is loaded on an object is listed
anew each time. -/
private def readAlike : Expr → Expr → Bool
  | .stored a path, .stored b path' =>
    a == b && path == path' && path.getLast? != some (.property "loaded_relations")
  | _, _ => false

private def isRead : Expr → Bool
  | .stored _ _ => true
  | _ => false

/-- Whether two expressions with these values stand for one thing. -/
private def areOne (a b : Expr) (v w : Value) : Bool :=
  readAlike a b || v.identical w && (isRead a && isRead b || v.isUnique)

private def dumpOf (target : Value) (plain : Bool) (excluded : List String) : Play Value :=
  match target with
  | .object id => Act.getsExcept fun w => w.dump plain excluded id
  | _ => throw .noAttribute

/-- Waits while the others take so many turns. -/
private def waitTurns : Nat → Play Unit
  | 0 => return ()
  | n + 1 => do
    Act.pause
    waitTurns n

/-- Runs callers of one registry beside each other. Each load notes its caller, waits three turns,
and comes to what the caller says. -/
private def coordinateAll (registry : Value) (callers : List (Value × Caller × Value)) :
    Play Value := do
  let id ← match registry with
    | .registry id => pure id
    | _ => throw .noAttribute
  let ran ← newTray
  let summary : Play Value := return .text (← Deed.registry id).summary
  let factory (index : Nat) (caller : Caller) (v : Value) : Play Value := do
    addToTray ran (.int index)
    waitTurns 3
    match caller.outcome with
    | .error text => throw (.runner text)
    | .ok _ => return v
  let tasks ← callers.zipIdx.mapM fun ((key, caller, v), index) =>
    Act.spawn fun _ => do
      let key ← Act.getsExcept fun w => w.key key
      Deed.coordinate id key (factory index caller v)
  Act.pause
  let middle ← summary
  (tasks.zip callers).forM fun (task, _, caller, _) =>
    if caller.cancelled then Act.cancel task else pure ()
  let results ← tasks.mapM fun task => (Act.join task).attempt
  waitTurns 8
  let after ← summary
  let ran := (← tray ran).filterMap Value.toInt?
  return .dict [
    (.text "middle", middle),
    (.text "ran", .list ((ran.mergeSort fun a b => decide (a ≤ b)).map .int)),
    (.text "after", after),
    (.text "results", .list (results.map fun
      | .ok v => v
      | .error e => .failure e))]

private def closeConnection (name : Value) : Play Unit := do
  let open_ ← Act.gets fun w => w.connections
  if !open_.isEmpty && !(← Act.gets fun w => w.isKey name) then throw .badType
  Act.modify fun w =>
    { w with connections := w.connections.filter fun c => !name.same (.text c.1) }

mutual

/-- The result of an action. -/
def perform : Action → Play Value
  | .value e => eval false e
  | .overview query => do
    match ← eval false query with
    | .query id => Act.getsExcept fun w => match w.queries[id]? with
      | some q => .ok (overview w.toEnv q)
      | none => .error .noAttribute
    | _ => throw .noAttribute
  | .summary registry => do
    match ← eval false registry with
    | .registry id => return .text (← Deed.registry id).summary
    | _ => throw .noAttribute
  | .call target method args named => do
    let target ← eval false target
    let args ← evalAll false args
    let named ← evalNamed false named
    invoke target (.mk method args named)
  | .load args => loadPaths args
  | .pages args => walkPages args
  | .same a b => do
    let v ← eval false a
    let w ← eval false b
    return .bool (areOne a b v w)
  | .equal a b => do
    let v ← eval false a
    let w ← eval false b
    Act.getsExcept fun env => do
      if !(env.isKey v && env.isKey w) then throw .badType
      let equal := env.same v w
      return .dict [(.text "eq", .bool equal), (.text "ne", .bool !equal),
        (.text "distinct", .int (if equal || areOne a b v w then 1 else 2))]
  | .dump target plain excluded => do
    let target ← eval false target
    let excluded ← eval false excluded
    let names ← if excluded.isNull then pure [] else itemsOf excluded
    dumpOf target plain (names.map Value.shown)
  | .registry limit => do
    let limit ← (limit.map (eval false)).getD (pure Registry.defaultLimit)
    Act.modifyGet fun w => (.registry w.registries.size,
      { w with registries := w.registries.push (.empty limit) })
  | .tagMap aliases => Act.modifyGet fun w =>
    (.tagMap (w.tagMaps.size + 1),
      { w with tagMaps := w.tagMaps.push (TagMap.empty.register aliases) })
  | .connect runner aliases => do
    openRunner runner
    Act.modify fun w => { w with tags := w.tags.register aliases }
    return .null
  | .disconnect args => do
    match ← evalAll false args with
    | [] => closeConnection (.text "default")
    | [name] => closeConnection name
    | _ => throw .badType
    return .null
  | .execute connection sql params => do
    let params ← eval false params
    let connection ← (connection.map (eval false)).getD (pure (.text "default"))
    let runner ← Act.getsExcept fun w => w.runner connection
    let params ← if ← Act.gets fun w => w.truthy params then itemsOf params else pure []
    let rows ← Act.ask ⟨runner, sql, params⟩
    return .list (rows.map fun row => .dict (row.map fun (k, v) => (.text k, v)))
  | .gather steps => do
    let tasks ← startAll steps
    let outcomes ← tasks.mapM fun task => (Act.join task).attempt
    return .list (outcomes.map fun
      | .ok v => v
      | .error e => .failure e)
  | .coordinate registry callers => do
    let registry ← eval false registry
    let callers ← callers.mapM fun c => do
      let key ← eval false c.key
      let v ← match c.outcome with
        | .ok e => eval false e
        | .error _ => pure .null
      return (key, c, v)
    coordinateAll registry callers

/-- The result of a step, stored if the step says so. -/
def performStep : Step → Play Value
  | .mk action storeAs => do
    let v ← perform action
    match storeAs with
    | some name =>
      Act.modify fun w => { w with stored := Catalog.put w.stored name v }
    | none => pure ()
    return v

/-- Starts a task for each step; its result is the outcome, portrayed when the step ends. -/
def startAll : List Step → Play (List TaskId)
  | [] => return []
  | step :: rest => do
    let task ← Act.spawn fun _ => do
      let v ← performStep step
      Act.gets fun w => .dict [(.text "ok", .portrait (portray w.toEnv v))]
    return task :: (← startAll rest)

end

/-- The outcome of a step, portrayed at its end. -/
def outcomeOf (step : Step) : Play Outcome := do
  let r ← (performStep step).attempt
  Act.gets fun w => r.map (portray w.toEnv)

private def isGather : Step → Bool
  | .mk (.gather _) _ => true
  | _ => false

/-- What `run` comes to, with what is noted meanwhile; what was noted before is noted again
behind it. -/
private def answered (run : Play Outcome) (unordered : Bool) : Play Answered := do
  let before ← Act.get
  Act.modify fun w => { w with warnings := [], rest := { w.rest with sent := [], during := [] } }
  let outcome ← run
  Act.modifyGet fun w =>
    let shown (values : List Value) := values.map (portray w.toEnv)
    let made : Answered :=
      { outcome := outcome
        sent := w.rest.sent.map fun s => (s.connection, s.sql, shown s.params)
        warnings := w.warnings
        during := w.rest.during
        unordered := unordered }
    (made,
      { w with
        warnings := before.warnings
        rest := { w.rest with sent := before.rest.sent, during := before.rest.during } })

private def addCursors (runner : Nat) (n : Int) : Play Unit :=
  modifyStage fun s => { s with openCursors := s.openCursors.modify runner (· + n) }

private def rowsOf : Reply → Except Error (List Row)
  | .rows rows => .ok rows
  | .table columns rows => .ok (rows.map fun values =>
      (columns.zip values).foldl (fun row (name, v) => Row.put row name v) [])
  | .nothing => .ok []
  | .fails text => .error (.runner text)

/-- How the runners answer a statement. Steps carried out before an answer may send statements of
their own, `depth` levels deep. -/
def answer : Nat → Request → Play (List Row)
  | 0, _ => throw .tooDeep
  | depth + 1, r => do
    let runner ← Act.getsExcept fun w => match w.rest.runners[r.connection]? with
      | some runner => .ok runner
      | none => .error .noAttribute
    if runner.kind = .cursors then addCursors r.connection 1
    let (response, runner) := runner.respond r.sql
    modifyStage fun s =>
      { s with
        runners := s.runners.setIfInBounds r.connection runner
        sent := s.sent ++ [⟨runner.name, r.sql, r.params⟩] }
    match response with
    | .mk reply turns during =>
      if runner.kind = .async then waitTurns (turns + 1)
      let aside (step : Step) : Play Unit := do
        let run : Play Outcome := fun next => (outcomeOf step next).answered (answer depth)
        let made ← answered run (isGather step)
        modifyStage fun s => { s with during := s.during ++ [made] }
      during.forM aside
      if runner.kind = .cursors then addCursors r.connection (-1)
      Act.ofExcept (rowsOf reply)

/-- How deep steps inside statements may nest. -/
def answerDepth : Nat := 50

/-- Carries out a step and notes its answer. -/
def answerStep (step : Step) : Play Unit := do
  let made ← answered (outcomeOf step) (isGather step)
  modifyStage fun s => { s with answers := s.answers ++ [made] }

/-- A session: models and aliases, the connections open at its start, and its steps. -/
structure Program where
  lookup : Lookup
  runners : List Runner
  steps : List Step

/-- What a session leaves behind. -/
structure Report where
  answers : List Answered
  /-- The cursors left open under each name that a connection with cursors was last opened
  under. -/
  openCursors : List (String × Int)

/-- The cursors that are open, by the name of the connection. -/
private def cursorsOf (s : Stage) : List (String × Int) :=
  let last := (s.runners.zip s.openCursors).toList.foldl (fun there (r, n) =>
    Catalog.put there r.name (r.kind, n)) []
  last.filterMap fun (name, kind, n) => if kind = .cursors then some (name, n) else none

/-- Carries out a session from beginning to end. -/
def Program.run (s : Program) : Report :=
  let start : Place :=
    { World.start s.lookup Stage.empty with
      stored := [("default_registry", .registry 0), ("morph_map", .tagMap 0)] }
  let main : Play Value := do
    s.runners.forM openRunner
    s.steps.forM answerStep
    return .null
  let (_, final) := Schedule.finish ((main .done).answered (answer answerDepth)) start
  ⟨final.rest.answers, cursorsOf final.rest⟩

end Relata.Session
