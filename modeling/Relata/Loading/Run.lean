import Relata.Loading.Eager

/-!
Ways of running a query: its first object, single values and columns, aggregates, and the pages of a
long result. None of them changes the query.
-/

namespace Relata

namespace Query

variable {τ : Type}

/-- The query with its select changed. -/
def mapSelect (q : Query) (f : Sql.Select → Sql.Select) : Query := { q with select := f q.select }

/-- The first object, or null. -/
def first (q : Query) : Deed τ Value := do
  let fetched ← (q.mapSelect fun s => { s with limit := .int 1 }).get .null
  return (fetched.members.head?.map .object).getD .null

def firstOrFail (q : Query) : Deed τ Value := do
  let found ← q.first
  if found.isNull then throw (.noMatch q.select.source.name)
  return found

/-- The object with the identifier, or null. -/
def find (q : Query) (identifier : Value) : Deed τ Value := do
  let narrowed ← Act.ofExcept <| Build.finish q do
    Build.addCondition
      (← Build.comparison .and (.text s!"{q.select.from_}.id") (some identifier) none)
  narrowed.first

def findOrFail (q : Query) (identifier : Value) : Deed τ Value := do
  let found ← q.find identifier
  if found.isNull then
    let shown ← Act.gets fun w => w.shown identifier
    throw (.noIdentifier q.select.source.name shown)
  return found

/-- The name of a column, without the table before it. -/
private def columnName : Value → Except Error String
  | .text s => .ok (String.ofList ((Text.splitChar '.' s.toList).getLastD []))
  | _ => .error .noAttribute

/-- The values of a column, one for each object, or a dictionary of them by another column. -/
def pluck (q : Query) (column key : Value) : Deed τ Value := do
  let fetched ← q.get .null
  let name ← Act.ofExcept (columnName column)
  if key.isNull then
    return .list (← fetched.members.mapM fun o => Deed.propertyOrNull (.object o) name)
  let keyName ← Act.ofExcept (columnName key)
  let entries ← fetched.members.mapM fun o => do
    let k ← Deed.propertyOrNull (.object o) keyName
    return (k, ← Deed.propertyOrNull (.object o) name)
  Act.getsExcept fun w => w.dictOf entries

/-- The value of a column of the first object, or null. -/
def value (q : Query) (column : Value) : Deed τ Value := do
  let found ← q.first
  if found.isNull then return .null
  Deed.propertyOrNull found (← Act.ofExcept (columnName column))

/-- The query that asks for an aggregate over the rows of this one. -/
def aggregated (q : Query) (function : String) (column : Value) : Query where
  select := { q.select with
    columns := [.text s!"{Text.uppercase function}({column.shown}) AS aggregate"]
    bindings := []
    orders := []
    limit := .null
    offset := .null }
  branches := []
  loads := { q.loads with paths := [] }

def aggregate (q : Query) (function column : Value) : Deed τ Value := do
  match function with
  | .text function =>
    let f ← Act.ofExcept ((q.aggregated function column).statement.checked "aggregate")
    match ← Deed.execute q.select.source.connection f.text f.values with
    | [] => return .null
    | row :: _ => match row.lookup "aggregate" with
      | some v => return v
      | none => throw .noKey
  | _ => throw .noAttribute

def count (q : Query) (column : Value) : Deed τ Int := do
  let v ← q.aggregate (.text "COUNT") column
  if v.truthy then Act.ofExcept (Sql.Select.rowCount v) else return 0

def exists_ (q : Query) : Deed τ Bool := do
  return 0 < (← q.count (.text "*"))

/-- Hands pages of `size` objects to `use`, from page `page` on, until it answers that no more are
wanted or a page is not full. The size is whatever was given for it; it has to serve as a limit, as
a factor of the offset, and to be compared with a number. -/
def pagesFrom (q : Query) (size : Value) (use : Value → Deed τ Bool) : Nat → Int → Deed τ Unit
  | 0, _ => throw .tooDeep
  | more + 1, page => do
    let before ← Act.ofExcept ((Value.int page).times size)
    let part := q.mapSelect fun s => { s with offset := before, limit := size }
    let fetched ← part.get .null
    if fetched.members.isEmpty then return ()
    if !(← use (.collection fetched.collection)) then return ()
    match size.isAbove? fetched.members.length with
    | none => throw .badType
    | some true => return ()
    | some false => q.pagesFrom size use more (page + 1)

/-- How many pages a result may have. -/
def pageLimit : Nat := 1000000

def chunk (q : Query) (size : Value) (use : Value → Deed τ Bool) : Deed τ Unit :=
  q.pagesFrom size use pageLimit 0

/-- Hands each object to `use`. -/
def each (q : Query) (use : Value → Deed τ Unit) : Deed τ Unit := do
  let fetched ← q.get .null
  fetched.members.forM fun o => use (.object o)

end Query

end Relata
