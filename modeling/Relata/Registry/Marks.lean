import Relata.Value

/-!
Marks of loaded relations. A row, known by its model and its identifier, is marked with the names of
the relations that were loaded for it; what was loaded is not kept. Rows stand in the order in which
they were last touched, and past a limit the ones untouched longest are dropped.

Names are taken one by one, and one that cannot be a name ends the taking; what was taken before it
stays. So an operation answers the marks it leaves and, apart from them, how it ended.
-/

namespace Relata

structure RowKey where
  model : Value
  id : Value

/-- Identifiers are compared as values, so that one and true are the same. -/
def RowKey.same (a b : RowKey) : Bool := a.model.same b.model && a.id.same b.id

structure Mark where
  key : RowKey
  names : List Value

structure Marks where
  /-- A number, unless whoever gave it was mistaken. -/
  limit : Value
  /-- The rows with their names, the one touched last at the end. -/
  rows : List Mark
deriving Inhabited

/-- Names to be taken, each an error in place of what is none. -/
abbrev Names := List (Except Error Value)

namespace Marks

def empty (limit : Value) : Marks := ⟨limit, []⟩

def find? (m : Marks) (key : RowKey) : Option Mark := m.rows.find? (·.key.same key)

/-- The rows other than the one of the key. -/
def others (m : Marks) (key : RowKey) : List Mark := m.rows.filter (!·.key.same key)

/-- The names with more of them taken in. -/
def add (there : List Value) : Names → List Value × Except Error Unit
  | [] => (there, .ok ())
  | .error e :: _ => (there, .error e)
  | .ok name :: rest => add (if there.any name.same then there else there ++ [name]) rest

/-- The names with some of them taken out. -/
def remove (there : List Value) : Names → List Value × Except Error Unit
  | [] => (there, .ok ())
  | .error e :: _ => (there, .error e)
  | .ok name :: rest => remove (there.filter (!name.same ·)) rest

/-- Drops rows from the front until they are no more than the limit. -/
def evict (limit : Value) : List Mark → List Mark × Except Error Unit
  | [] => match limit.isBelow? 0 with
    | none => ([], .error .badType)
    | some true => ([], .error .noKey)
    | some false => ([], .ok ())
  | own :: rest => match limit.isBelow? (rest.length + 1 : Nat) with
    | none => (own :: rest, .error .badType)
    | some true => evict limit rest
    | some false => (own :: rest, .ok ())

/-- Marks a row; a row without an identifier is not marked. -/
def mark (m : Marks) (key : RowKey) (names : Names) : Marks × Except Error Unit :=
  if key.id.isNull then (m, .ok ())
  else
    let (there, key) := match m.find? key with
      | some own => (own.names, own.key)
      | none => ([], key)
    let (taken, outcome) := add there names
    let rows := m.others key ++ [⟨key, taken⟩]
    match outcome with
    | .error e => ({ m with rows := rows }, .error e)
    | .ok _ =>
      let (kept, outcome) := evict m.limit rows
      ({ m with rows := kept }, outcome)

/-- Whether all of the names are marked for a row. Asking touches the row. -/
def isLoaded (m : Marks) (key : RowKey) (names : Names) : Marks × Except Error Bool :=
  if key.id.isNull then (m, .ok false)
  else match m.find? key with
    | none => (m, .ok false)
    | some own =>
      let asked : Except Error (List Value) := names.mapM id
      ({ m with rows := m.others key ++ [own] },
        asked.map fun names => names.all fun n => own.names.any n.same)

/-- Drops a row, or only some of its names. -/
def forget (m : Marks) (key : RowKey) (names : Option Names) : Marks × Except Error Unit :=
  match names, m.find? key with
  | none, _ => ({ m with rows := m.others key }, .ok ())
  | some _, none => (m, .ok ())
  | some names, some own =>
    let (left, outcome) := remove own.names names
    ({ m with rows := m.rows.map fun r => if r.key.same key then { r with names := left } else r },
      outcome)

def clear (m : Marks) : Marks := { m with rows := [] }

/-- What is left in the end is within the limit. -/
theorem not_isBelow_of_evict {limit : Value} {rows kept : List Mark}
    (h : evict limit rows = (kept, .ok ())) : limit.isBelow? kept.length = some false := by
  induction rows with
  | nil => unfold evict at h; split at h <;> simp_all
  | cons own rest ih =>
    unfold evict at h
    split at h
    · simp_all
    · exact ih h
    · simp only [Prod.mk.injEq, and_true] at h
      subst h
      simpa using ‹_›

/-- The limit is not exceeded once a row has been marked. -/
theorem not_isBelow_of_mark {m left : Marks} {key : RowKey} {names : Names}
    (hid : key.id.isNull = false) (h : m.mark key names = (left, .ok ())) :
    left.limit.isBelow? left.rows.length = some false := by
  simp only [mark, hid, Bool.false_eq_true, if_false] at h
  split at h
  · simp at h
  · simp only [Prod.mk.injEq] at h
    obtain ⟨rfl, hok⟩ := h
    exact not_isBelow_of_evict (Prod.ext rfl hok)

end Marks

end Relata
