import Relata.Registry.Marks

/-!
Loads in flight. A key maps to the task that carries out the load for everyone who asks for it, from
the moment it is started until it settles.
-/

namespace Relata

structure Flights where
  entries : List (Value × TaskId)
deriving Inhabited

namespace Flights

def empty : Flights := ⟨[]⟩

def find? (f : Flights) (key : Value) : Option TaskId := Value.lookup? key f.entries

def start (f : Flights) (key : Value) (task : TaskId) : Flights :=
  ⟨Value.drop f.entries key ++ [(key, task)]⟩

/-- Takes the key out if it still maps to the task; a newer task under the same key stays. -/
def release (f : Flights) (key : Value) (task : TaskId) : Flights :=
  if f.find? key = some task then ⟨Value.drop f.entries key⟩ else f

/-- The key of a load on a single row. -/
def rowKey (key : RowKey) (paths : List String) : Value :=
  .tuple [.text "instance", key.model, key.id, .tuple (paths.map .text)]

/-- The key of a load on the members of a collection. -/
def collectionKey (id : CollectionId) (paths : List String) : Value :=
  .tuple [.text "collection", .collection id, .tuple (paths.map .text)]

end Flights

/-- The marks and the loads in flight that loads share. -/
structure Registry where
  marks : Marks
  flights : Flights
deriving Inhabited

namespace Registry

/-- How many rows a registry remembers unless it is told. -/
def defaultLimit : Value := .int 100000

def empty (limit : Value) : Registry := ⟨.empty limit, .empty⟩

/-- A registry in words. -/
def summary (r : Registry) : String :=
  s!"LoadRegistry(entries={r.marks.rows.length}, in_flight={r.flights.entries.length})"

end Registry

end Relata
