import Relata.Calendar
import Relata.Error
import Relata.Number.Binary64

/-!
Portraits: what a value looks like together with all that it refers to, as it is at one moment. An
object shows its fields and loaded relations, a query the statement it stands for. An object met
again inside its own portrait is only named. A portrait does not change when what it shows does, so
it can be kept.
-/

namespace Relata

inductive Portrait where
  | null
  | bool (b : Bool)
  | int (i : Int)
  | float (x : Binary64)
  | text (s : String)
  | time (m : Moment)
  | list (items : List Portrait)
  | dict (entries : List (Portrait × Portrait))
  | model (key : String)
  | object (key : String) (fields extra relations : List (String × Portrait))
  | again (key : String)
  | statement (text : String) (values : List Portrait)
  | refused (error : Error)
  | relation (owner name : String)
  | recipe
  | registry
  | tagMap
  | failure (error : Error)
  | unseen

instance : Inhabited Portrait := ⟨.null⟩

end Relata
