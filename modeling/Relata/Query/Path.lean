import Relata.Text.Alphabet

/-!
Paths of relations. A path is a row of relation names with points between them; after a colon the
columns to be fetched may follow, with commas between them. Paths that begin with the same relation
are grouped, so that it is loaded once.
-/

namespace Relata

structure RelationPath where
  relation : String
  columns : Option (List String)

namespace RelationPath

/-- The relation and, if there is a colon, the columns: stripped, and empty ones left out. -/
def read (path : String) : RelationPath :=
  match Text.cutAt ':' path.toList with
  | (_, none) => ⟨path, none⟩
  | (relation, some columns) =>
    let names := (Text.splitChar ',' columns).map Text.strip
    ⟨String.ofList relation, some ((names.filter (!·.isEmpty)).map String.ofList)⟩

/-- The first segment of a path, and the rest behind its point, which may be empty. -/
def head (path : String) : String × String :=
  let (first, rest) := Text.cutAt '.' path.toList
  (String.ofList first, String.ofList (rest.getD []))

/-- What follows a segment, with one more rest of a path, which stands there once. -/
def withRest (nested : List String) (rest : String) : List String :=
  if rest.isEmpty || nested.contains rest then nested else nested ++ [rest]

/-- The groups with one more path: its rest stands under its first segment. -/
def addTo (groups : List (String × List String)) (path : String) : List (String × List String) :=
  let (first, rest) := head path
  if groups.any (·.1 == first) then
    groups.map fun g => if g.1 == first then (first, withRest g.2 rest) else g
  else groups ++ [(first, withRest [] rest)]

/-- The first segments in the order in which they come, each with what follows it. -/
def group (paths : List String) : List (String × List String) := paths.foldl addTo []

end RelationPath

end Relata
