import Relata.Schema.Linearization

/-!
What a merge of orders keeps. Each of the lists stands in the merged order as it stood, nothing else
stands in it, and nothing stands in it twice: the head taken at a step stands behind no other, so it
is gone from all lists afterwards.
-/

namespace Relata.Linearization

variable {α : Type} [DecidableEq α] {lists : List (List α)} {order list : List α} {a : α}

/-- The orders that merging lists may end in, step by step. -/
inductive Merges : List (List α) → List α → Prop
  | done {lists : List (List α)} : (∀ l ∈ lists, l = []) → Merges lists []
  | step {lists : List (List α)} {a : α} {order : List α} : candidate? lists = some a →
    Merges (without a lists) order → Merges lists (a :: order)

theorem merges_of_mergeUpTo {size : Nat} (h : mergeUpTo size lists = some order) :
    Merges lists order := by
  induction size generalizing lists order with
  | zero =>
    rw [mergeUpTo] at h
    split at h
    · next empty =>
      cases h
      exact .done (by simpa using empty)
    · cases h
  | succ size ih =>
    rw [mergeUpTo] at h
    split at h
    · next empty =>
      cases h
      exact .done (by simpa using empty)
    · obtain ⟨a, chosen, h⟩ := Option.bind_eq_some_iff.mp h
      obtain ⟨rest, later, h⟩ := Option.bind_eq_some_iff.mp h
      cases h
      exact .step chosen (ih later)

/-- The head that is taken is one of the heads, and stands behind none of them. -/
theorem candidate?_eq_some (h : candidate? lists = some a) :
    (∃ l ∈ lists, a ∈ l) ∧ ∀ l ∈ lists, a ∉ l.drop 1 := by
  obtain ⟨l, there, taken⟩ := List.exists_of_findSome?_eq_some h
  cases l with
  | nil => cases taken
  | cons b rest =>
    dsimp only at taken
    split at taken
    · cases taken
    · next free =>
      cases taken
      refine ⟨⟨_, there, .head _⟩, fun l there behind => free ?_⟩
      exact List.any_eq_true.mpr ⟨l, there, List.contains_iff_mem.mpr behind⟩

theorem Merges.sublist (h : Merges lists order) (there : list ∈ lists) : list.Sublist order := by
  induction h generalizing list with
  | done empty =>
    obtain rfl := empty list there
    exact List.nil_sublist _
  | @step lists a order chosen _ ih =>
    have kept := ih (List.mem_map_of_mem there)
    cases list with
    | nil => exact List.nil_sublist _
    | cons b rest =>
      dsimp only at kept
      split at kept
      · next same => exact same ▸ kept.cons_cons b
      · exact kept.cons a

theorem Merges.mem (h : Merges lists order) (there : a ∈ order) : ∃ l ∈ lists, a ∈ l := by
  induction h with
  | done _ => cases there
  | step chosen _ ih =>
    rcases List.mem_cons.mp there with rfl | there
    · exact (candidate?_eq_some chosen).1
    · obtain ⟨left, listed, there⟩ := ih there
      obtain ⟨l, own, rfl⟩ := List.mem_map.mp listed
      refine ⟨l, own, ?_⟩
      cases l with
      | nil => exact there
      | cons b rest =>
        dsimp only at there
        split at there
        · exact .tail _ there
        · exact there

theorem Merges.nodup (h : Merges lists order) : order.Nodup := by
  induction h with
  | done _ => exact List.nodup_nil
  | @step lists a order chosen later ih =>
    refine List.nodup_cons.mpr ⟨fun again => ?_, ih⟩
    obtain ⟨left, listed, there⟩ := later.mem again
    obtain ⟨l, own, rfl⟩ := List.mem_map.mp listed
    have ahead := (candidate?_eq_some chosen).2 l own
    cases l with
    | nil => cases there
    | cons b rest =>
      dsimp only at there
      split at there
      · exact ahead there
      · next other => exact (List.mem_cons.mp there).elim (fun same => other same.symm) ahead

/-- The order of a class begins with the class and goes on with a merge of the orders of its bases
and of the list of bases. -/
theorem of_eq_some {self : α} {bases : List α} {orders : List (List α)}
    (h : of self bases orders = some order) :
    ∃ rest, order = self :: rest ∧ Merges (orders ++ [bases]) rest := by
  unfold of at h
  split at h
  · obtain ⟨rest, merged, rfl⟩ := Option.map_eq_some_iff.mp h
    exact ⟨rest, rfl, merges_of_mergeUpTo merged⟩
  · cases h

end Relata.Linearization
