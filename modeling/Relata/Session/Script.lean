import Relata.Value

/-!
Scripts: what a session does, step by step, written as data. Expressions name values, read
variables, make objects and build queries. A connection of a script is a runner that never runs
anything: it records each statement and answers with a response prepared for it.
-/

namespace Relata.Session

mutual

inductive Expr where
  | value (v : Value)
  | list (items : List Expr)
  | tuple (items : List Expr)
  | dict (entries : List (Expr × Expr))
  /-- A new object made from a row. -/
  | fresh (model : ModelId) (row : List (String × Expr))
  | stored (name : String) (path : List PathItem)
  /-- A query on a model with calls made one after the other. -/
  | query (model : ModelId) (calls : List CallExpr)
  /-- Calls made on the query that a variable holds. -/
  | extend (name : String) (calls : List CallExpr)
  | recipe (calls : List CallExpr) (answers : Bool)

inductive CallExpr where
  | mk (method : String) (args : List Expr) (named : List (String × Expr))

end

instance : Inhabited Expr := ⟨.value .null⟩

/-- What a runner answers to a statement. -/
inductive Reply where
  | rows (rows : List Row)
  | table (columns : List String) (rows : List (List Value))
  | nothing
  | fails (text : String)

inductive RunnerKind where
  | async
  | sync
  /-- A connection with cursors, of which it counts those left open. -/
  | cursors
deriving DecidableEq, Inhabited

/-- One caller of a shared load: what its own load would come to, and whether the caller is
cancelled while it waits. -/
structure Caller where
  key : Expr
  outcome : Except String Expr
  cancelled : Bool

/-- The arguments of an eager loader. -/
structure LoadArgs where
  objects : Expr
  paths : Expr
  columns : Expr
  callbacks : Expr
  registry : Expr
  force : Expr
  chunkSize : Option Expr

/-- The arguments of a walk over pages. -/
structure PageArgs where
  query : Expr
  /-- Single objects are handed out if there is no size. -/
  size : Option Expr
  pluck : Expr
  stopAt : Option Nat

mutual

inductive Action where
  | value (e : Expr)
  | overview (query : Expr)
  | summary (registry : Expr)
  | call (target : Expr) (method : String) (args : List Expr) (named : List (String × Expr))
  | load (args : LoadArgs)
  | pages (args : PageArgs)
  | same (a b : Expr)
  | equal (a b : Expr)
  | dump (target : Expr) (plain : Bool) (excluded : Expr)
  | registry (limit : Option Expr)
  | tagMap (aliases : List (Value × Value))
  | connect (runner : Runner) (aliases : List (Value × Value))
  | disconnect (args : List Expr)
  | execute (connection : Option Expr) (sql : String) (params : Expr)
  | gather (steps : List Step)
  | coordinate (registry : Expr) (callers : List Caller)

/-- An action, and the variable that its result is stored in. -/
inductive Step where
  | mk (action : Action) (storeAs : Option String)

/-- A prepared response: the reply, the turns that pass before it, and steps carried out
before it. -/
inductive Response where
  | mk (reply : Reply) (turns : Nat) (during : List Step)

inductive Runner where
  | mk (name : String) (kind : RunnerKind) (queue : List Response)
      (routes : List (String × Response))

end

namespace Runner

def name : Runner → String | mk name _ _ _ => name
def kind : Runner → RunnerKind | mk _ kind _ _ => kind

/-- The response to a statement: that of the first route whose text occurs in it, else the next one
of the queue, else no rows. -/
def respond (r : Runner) (sql : String) : Response × Runner :=
  match r with
  | mk name kind queue routes =>
    match routes.find? fun (text, _) => Text.occursIn text.toList sql.toList with
    | some (_, response) => (response, r)
    | none => match queue with
      | response :: later => (response, mk name kind later routes)
      | [] => (.mk (.rows []) 0 [], r)

end Runner

end Relata.Session
