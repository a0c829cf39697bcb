import Relata.Number.Numeral
import Relata.Portrait
import Relata.Text.Quoted

/-!
Values: what rows hold, what conditions are bound to, and what the calls of a query builder take.

Besides plain data there are references, by number, to what a session keeps: models, objects,
collections, queries, registries, maps of type tags and running tasks. A recipe is a row of builder
calls not yet made, and a draft a query not yet built; both are data, so a value never hides a
function. What stands in a recipe for something known only later is a hole: a parameter for the
argument of that number, a variable for what it will hold, an error for what could not be made.
-/

namespace Relata

abbrev ModelId := Nat
abbrev ObjectId := Nat
abbrev CollectionId := Nat
abbrev QueryId := Nat
abbrev RegistryId := Nat
abbrev TagMapId := Nat
abbrev TaskId := Nat

/-- An item of the path behind a variable. -/
inductive PathItem where
  | index (i : Int)
  | property (name : String)
deriving DecidableEq

mutual

inductive Value where
  | null
  | bool (b : Bool)
  | int (i : Int)
  | float (x : Binary64)
  | text (s : String)
  | time (m : Moment)
  | list (items : List Value)
  | tuple (items : List Value)
  | dict (entries : List (Value × Value))
  | model (id : ModelId)
  | object (id : ObjectId)
  | collection (id : CollectionId)
  | query (id : QueryId)
  | registry (id : RegistryId)
  | tagMap (id : TagMapId)
  | task (id : TaskId)
  | relation (owner : ModelId) (name : String)
  | failure (error : Error)
  /-- Something already portrayed. -/
  | portrait (p : Portrait)
  | recipe (calls : List Call) (answers : Bool)
  /-- A query to be built on a model, or on the query that a variable holds. -/
  | draft (base : Value) (calls : List Call)
  | parameter (index : Nat)
  | variable (name : String) (path : List PathItem)
  | thrown (error : Error)

/-- A call by name, with positional and named arguments. -/
inductive Call where
  | mk (method : String) (args : List Value) (named : List (String × Value))

end

instance : Inhabited Value := ⟨.null⟩

namespace Call

def method : Call → String | mk m _ _ => m
def args : Call → List Value | mk _ as _ => as
def named : Call → List (String × Value) | mk _ _ ns => ns

end Call

/-- A row of a result, in the order of its columns. -/
abbrev Row := List (String × Value)

namespace Value

def isNull : Value → Bool
  | null => true
  | _ => false

/-- The truth of a value as a condition: nothing, zero and whatever is empty are false. -/
def truthy : Value → Bool
  | null => false
  | bool b => b
  | int i => i != 0
  | float x => !x.isZero
  | text s => !s.isEmpty
  | list items => !items.isEmpty
  | tuple items => !items.isEmpty
  | dict entries => !entries.isEmpty
  | _ => true

/-- The integer that a number is equal to; a truth value counts as zero or one. -/
def toInt? : Value → Option Int
  | bool b => some (if b then 1 else 0)
  | int i => some i
  | float x => x.toInt?
  | _ => none

mutual

/-- Equality of values: numbers by their size, whether integer, floating or truth value; lists item
by item; dictionaries whatever the order of their entries; references by what they refer to. -/
def same : Value → Value → Bool
  | null, null => true
  | text s, text t => s == t
  | time m, time n => m == n
  | list xs, list ys => sameItems xs ys
  | tuple xs, tuple ys => sameItems xs ys
  | dict xs, dict ys => xs.length == ys.length && sameEntries xs ys
  | model a, model b => a == b
  | object a, object b => a == b
  | collection a, collection b => a == b
  | query a, query b => a == b
  | registry a, registry b => a == b
  | tagMap a, tagMap b => a == b
  | task a, task b => a == b
  | relation a n, relation b m => a == b && n == m
  | float x, float y => x.equal y
  | bool b, other => other.toInt? == some (if b then 1 else 0)
  | int i, other => other.toInt? == some i
  | float x, other => match other.toInt?, x.toInt? with
    | some i, some j => i == j
    | _, _ => false
  | _, _ => false

def sameItems : List Value → List Value → Bool
  | [], [] => true
  | x :: xs, y :: ys => same x y && sameItems xs ys
  | _, _ => false

def sameEntries : List (Value × Value) → List (Value × Value) → Bool
  | [], _ => true
  | (k, v) :: rest, entries =>
    (match entries.find? (fun entry => same k entry.1) with
      | some (_, w) => same v w
      | none => false) && sameEntries rest entries

end

/-- Whether two values are equal and of one kind. -/
def identical : Value → Value → Bool
  | bool a, bool b => a == b
  | int i, int j => i == j
  | float x, float y => x == y
  | bool _, _ | int _, _ | float _, _ => false
  | a, b => same a b

/-- Whether there is only one value like this, wherever it is written: nothing, the truth values,
small integers and short texts. -/
def isUnique : Value → Bool
  | list _ | dict _ | float _ | time _ => false
  | int i => -5 ≤ i && i ≤ 256
  | text s => match s.toList with
    | [] => true
    | [c] => c.toNat < 256
    | _ => false
  | tuple items => items.isEmpty
  | _ => true

mutual

/-- Whether a value can be a key. -/
def isKey : Value → Bool
  | list _ | dict _ | collection _ | query _ | draft _ _ => false
  | tuple items => areKeys items
  | _ => true

def areKeys : List Value → Bool
  | [] => true
  | v :: rest => isKey v && areKeys rest

end

/-- The value stored under a key equal to `key`. -/
def lookup? (key : Value) : List (Value × α) → Option α
  | [] => none
  | (k, v) :: rest => if same key k then some v else lookup? key rest

/-- The entries with `a` under `key`; a key that is there stays as it is and keeps its place. -/
def put (entries : List (Value × α)) (key : Value) (a : α) : List (Value × α) :=
  if entries.any fun e => same key e.1 then
    entries.map fun e => if same key e.1 then (e.1, a) else e
  else entries ++ [(key, a)]

/-- The entries without the one under `key`. -/
def drop (entries : List (Value × α)) (key : Value) : List (Value × α) :=
  entries.filter fun e => !same key e.1

/-- Distinct values under `same`, the first of equal ones kept. -/
def distinct (values : List Value) : List Value :=
  values.foldl (fun seen v => if seen.any (same v) then seen else seen ++ [v]) []

mutual

/-- The text of a value inside a list or a dictionary, where texts are quoted; `object` is the text
of an object there. -/
def innerBy (object : ObjectId → String) : Value → String
  | text s => Text.quoted s
  | list items => "[" ++ ", ".intercalate (innerItems object items) ++ "]"
  | tuple [v] => "(" ++ innerBy object v ++ ",)"
  | tuple items => "(" ++ ", ".intercalate (innerItems object items) ++ ")"
  | dict entries => "\x7b" ++ ", ".intercalate (innerEntries object entries) ++ "\x7d"
  | null => "None"
  | bool b => if b then "True" else "False"
  | int i => toString i
  | float x => x.text
  | time m =>
    let parts := [m.year, m.month, m.day, m.hour, m.minute] ++
      (if m.second = 0 ∧ m.micro = 0 then [] else [m.second]) ++
      (if m.micro = 0 then [] else [m.micro])
    "datetime.datetime(" ++ ", ".intercalate (parts.map toString) ++ ")"
  | .object id => object id
  | _ => "<object>"

def innerItems (object : ObjectId → String) : List Value → List String
  | [] => []
  | v :: rest => innerBy object v :: innerItems object rest

def innerEntries (object : ObjectId → String) : List (Value × Value) → List String
  | [] => []
  | (k, v) :: rest => (innerBy object k ++ ": " ++ innerBy object v) :: innerEntries object rest

end

/-- The text of a value inside another one, nothing being known of objects. -/
def inner : Value → String := innerBy fun _ => "<object>"

/-- The text of a value: a text itself, a moment with a blank between date and time. -/
def shown : Value → String
  | text s => s
  | time m => m.written ' '
  | v => inner v

def asText? : Value → Option String
  | text s => some s
  | _ => none

/-- Whether a value can be called with a query. -/
def isCallable : Value → Bool
  | recipe _ _ => true
  | model _ => true
  | _ => false

private def characters (s : String) : List Value :=
  s.toList.map fun c => text (String.ofList [c])

/-- The items of a value that can be gone through: characters of a text, keys of a dictionary. -/
def items? : Value → Option (List Value)
  | list xs => some xs
  | tuple xs => some xs
  | text s => some (characters s)
  | dict entries => some (entries.map (·.1))
  | _ => none

/-- The items of a list or a tuple. -/
def members? : Value → Option (List Value)
  | list xs => some xs
  | tuple xs => some xs
  | _ => none

/-- The items of each list given, and each other value as it is. -/
def flatten (values : List Value) : List Value := values.flatMap fun v => (members? v).getD [v]

/-- Whether a value holds an item: a list or a dictionary has it as a member or a key, a text has it
as a part. An object holds pairs of names and values. Nothing can be held by other values. -/
def holds (container item : Value) : Option Bool :=
  match container, item with
  | text s, text part => some (Text.occursIn part.toList s.toList)
  | text _, _ => none
  | object _, _ | query _, _ | draft _ _, _ => some false
  | container, item => container.items?.map (·.any (same item))

/-- Whether an integer is below a value; only numbers are compared with it. -/
def isAbove? (v : Value) (i : Int) : Option Bool :=
  match v with
  | bool b => some (i < if b then 1 else 0)
  | int j => some (i < j)
  | float x => some (x.isAbove i)
  | _ => none

/-- Whether a value is below an integer; only numbers are compared with it. -/
def isBelow? (v : Value) (i : Int) : Option Bool :=
  match v with
  | bool b => some ((if b then 1 else 0) < i)
  | int j => some (j < i)
  | float x => some (x.isBelow i)
  | _ => none

/-- The number before a number. -/
def previous : Value → Except Error Value
  | bool b => .ok (int (if b then 0 else -1))
  | int i => .ok (int (i - 1))
  | float x => .ok (float (x.sub (.ofInt 1)))
  | _ => .error .badType

/-- A number, or zero in place of one below it. -/
def orZero : Value → Value
  | int i => int (max i 0)
  | float x => if x.isBelow 0 then int 0 else float x
  | v => v

/-- How many items a repetition may have. -/
private def repetitionLimit : Nat := 1000000000

/-- A row of items again and again. -/
private def repeated {α : Type} (times : Int) (items : List α) (tooLong : Error) :
    Except Error (List α) :=
  let size := times.toNat * items.length
  if !Numeral.fitsWord times then .error .boundless
  else if Numeral.wordBound ≤ size then .error tooLong
  else if repetitionLimit < size then .error .exhausted
  else if items.isEmpty then .ok []
  else .ok (List.replicate times.toNat items).flatten

private def floatTimes (x : Binary64) (i : Int) : Except Error Value :=
  match Binary64.ofInt? i with
  | some y => .ok (float (x.mul y))
  | none => .error .boundless

/-- The product of a number with a value: of two numbers, or a sequence repeated. -/
def times : Value → Value → Except Error Value
  | bool b, v => times (int (if b then 1 else 0)) v
  | int i, bool b => .ok (int (if b then i else 0))
  | int i, int j => .ok (int (i * j))
  | int i, float y => floatTimes y i
  | int i, text s => (repeated i s.toList .boundless).map fun s => text (String.ofList s)
  | int i, list items => (repeated i items .exhausted).map list
  | int i, tuple items => (repeated i items .exhausted).map tuple
  | float x, bool b => floatTimes x (if b then 1 else 0)
  | float x, int j => floatTimes x j
  | float x, float y => .ok (float (x.mul y))
  | _, _ => .error .badType
termination_by v => match v with
  | bool _ => 1
  | _ => 0

mutual

/-- The value with each parameter replaced by the argument of its number. -/
def fill (args : List Value) : Value → Value
  | parameter i => (args[i]?).getD (thrown .badInput)
  | list xs => list (fillItems args xs)
  | tuple xs => tuple (fillItems args xs)
  | dict entries => dict (fillEntries args entries)
  | recipe calls answers => recipe (fillCalls args calls) answers
  | draft base calls => draft base (fillCalls args calls)
  | v => v

def fillItems (args : List Value) : List Value → List Value
  | [] => []
  | v :: rest => fill args v :: fillItems args rest

def fillEntries (args : List Value) : List (Value × Value) → List (Value × Value)
  | [] => []
  | (k, v) :: rest => (fill args k, fill args v) :: fillEntries args rest

def fillNamed (args : List Value) : List (String × Value) → List (String × Value)
  | [] => []
  | (k, v) :: rest => (k, fill args v) :: fillNamed args rest

def fillCall (args : List Value) : Call → Call
  | .mk method positional named => .mk method (fillItems args positional) (fillNamed args named)

def fillCalls (args : List Value) : List Call → List Call
  | [] => []
  | c :: rest => fillCall args c :: fillCalls args rest

end

end Value

end Relata
