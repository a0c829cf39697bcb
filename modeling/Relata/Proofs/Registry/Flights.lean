import Relata.Proofs.Value.Entries

/-!
The table of loads in flight, read by keys: what starting and releasing a load does to the task found
under each key. Keys that are equal find the same task.
-/

namespace Relata

open Matches (same_iff_of_same lookup?_append)
open Value (lookup?_drop)

namespace Flights

variable {k key : Value}

/-- What is started is in flight, and what is released is so no more. -/
theorem find?_start_own (own : key.same key = true) (f : Flights) (t : TaskId) :
    (f.start key t).find? key = some t := by
  simp [find?, start, lookup?_append, Value.lookup?_drop_own, Value.lookup?, own]

theorem find?_release_own {f : Flights} {t : TaskId} (h : f.find? key = some t) :
    (f.release key t).find? key = none := by
  rw [release, if_pos h]
  exact Value.lookup?_drop_own _

theorem same_texts (paths : List String) :
    Value.sameItems (paths.map .text) (paths.map .text) = true := by
  induction paths with
  | nil => rfl
  | cons path rest ih => simp [Value.sameItems, Value.same, ih]

theorem areKeys_texts (paths : List String) : Value.areKeys (paths.map .text) = true := by
  induction paths with
  | nil => rfl
  | cons path rest ih => simp [Value.areKeys, Value.isKey, ih]

theorem same_collectionKey (id : CollectionId) (paths : List String) :
    (collectionKey id paths).same (collectionKey id paths) = true := by
  simp [collectionKey, Value.same, Value.sameItems, same_texts]

variable (hk : k.isKey = true) (hkey : key.isKey = true)

include hk hkey

theorem find?_congr (f : Flights) (equal : k.same key = true) : f.find? k = f.find? key := by
  unfold find?
  induction f.entries with
  | nil => rfl
  | cons e entries ih => rw [Value.lookup?, Value.lookup?, same_iff_of_same hk hkey equal, ih]

theorem find?_start (f : Flights) (t : TaskId) :
    (f.start key t).find? k = if k.same key then some t else f.find? k := by
  simp only [find?, start, lookup?_append, lookup?_drop hk hkey, Value.lookup?]
  by_cases equal : k.same key = true <;> simp [equal]

theorem find?_release (f : Flights) (t : TaskId) :
    (f.release key t).find? k = if f.find? key = some t ∧ k.same key then none else f.find? k := by
  unfold release
  by_cases own : f.find? key = some t
  · rw [if_pos own]
    unfold find? at own ⊢
    rw [lookup?_drop hk hkey]
    simp [own]
  · simp [own]

end Flights

end Relata
