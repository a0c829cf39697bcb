import Mathlib.Data.List.Nodup
import Relata.Proofs.Loading.Grouped

/-!
The tree that paths make. A prefix of some of the paths is a first segment, or one with a prefix behind
it of what is grouped under that segment; and the segments that paths are grouped under are distinct.
So walking the groups, and under each of them what is nested there, comes past each prefix once.
-/

namespace Relata.RelationPath

/-- The segments begin one of the paths. -/
def Begins (paths : List String) (p : List String) : Prop :=
  p ≠ [] ∧ ∃ path ∈ paths, p <+: steps path

/-- The segments are that of the group, and behind it some that begin what is nested there. -/
def Enters (g : String × List String) (p : List String) : Prop :=
  p = [g.1] ∨ ∃ q, p = g.1 :: q ∧ Begins g.2 q

/-- What is nested under a segment is the rest of a path that begins with it. -/
def Nests (paths : List String) (g : String × List String) : Prop :=
  ∀ rest ∈ g.2, ∃ path ∈ paths, (head path).1 = g.1 ∧ (head path).2 = rest ∧ rest ≠ ""

theorem nests_addTo {paths : List String} {groups : List (String × List String)} {path : String}
    (there : path ∈ paths) (h : ∀ g ∈ groups, Nests paths g) : ∀ g ∈ addTo groups path, Nests paths g := by
  have one (nested : List String) (old : Nests paths ((head path).1, nested)) :
      Nests paths ((head path).1, withRest nested (head path).2) := by
    intro rest hrest
    rcases mem_withRest.mp hrest with before | ⟨rfl, some_⟩
    · exact old rest before
    · exact ⟨path, there, rfl, rfl, some_⟩
  intro g hg
  rw [addTo_eq] at hg
  split at hg
  · obtain ⟨was, before, rfl⟩ := List.mem_map.mp hg
    split
    · next same =>
      refine one was.2 fun rest hrest => ?_
      rw [← beq_iff_eq.mp same]
      exact h was before rest hrest
    · exact h was before
  · rcases List.mem_append.mp hg with old | new
    · exact h g old
    · rw [List.mem_singleton.mp new]
      exact one [] fun _ none => by cases none

theorem nests_group (paths : List String) : ∀ g ∈ group paths, Nests paths g := by
  suffices ∀ (rest : List String) (groups : List (String × List String)),
      (∀ path ∈ rest, path ∈ paths) → (∀ g ∈ groups, Nests paths g) →
        ∀ g ∈ rest.foldl addTo groups, Nests paths g from
    this paths [] (fun _ => id) (List.forall_mem_nil _)
  intro rest
  induction rest with
  | nil => exact fun _ _ => id
  | cons path rest ih =>
    exact fun groups among before => ih _ (fun p there => among p (.tail _ there))
      (nests_addTo (among path (.head _)) before)

/-- Each segment is grouped under once. -/
theorem nodup_group (paths : List String) : ((group paths).map (·.1)).Nodup := by
  suffices ∀ (rest : List String) (groups : List (String × List String)),
      (groups.map (·.1)).Nodup → ((rest.foldl addTo groups).map (·.1)).Nodup from
    this paths [] List.nodup_nil
  intro rest
  induction rest with
  | nil => exact fun _ => id
  | cons path rest ih =>
    refine fun groups once => ih _ ?_
    rw [addTo_eq]
    split
    · have names : (groups.map fun g => if g.1 == (head path).1 then
          ((head path).1, withRest g.2 (head path).2) else g).map (·.1) = groups.map (·.1) := by
        rw [List.map_map]
        refine List.map_congr_left fun g _ => ?_
        dsimp only [Function.comp]
        split
        · next same => exact (beq_iff_eq.mp same).symm
        · rfl
      rwa [names]
    · next fresh =>
      rw [List.map_append]
      refine List.nodup_append.mpr ⟨once, List.nodup_singleton _, ?_⟩
      rintro a there b rfl' same
      obtain rfl := List.mem_singleton.mp rfl'
      obtain ⟨g, hg, rfl⟩ := List.mem_map.mp there
      exact fresh (List.any_eq_true.mpr ⟨g, hg, by simpa using same⟩)

/-- The groups hold the prefixes of the paths, and no others. -/
theorem begins_iff_enters {paths : List String} {p : List String} :
    Begins paths p ↔ ∃ g ∈ group paths, Enters g p := by
  constructor
  · rintro ⟨some_, path, there, part⟩
    obtain ⟨first, q, rfl⟩ := List.exists_cons_of_ne_nil some_
    rw [steps_eq, List.cons_prefix_cons] at part
    obtain ⟨rfl, part⟩ := part
    obtain ⟨g, hg, own, nested⟩ := grouped_group there
    refine ⟨g, hg, ?_⟩
    rw [Enters, own]
    by_cases ends : q = []
    · exact .inl (by rw [ends])
    · by_cases last : (head path).2 = ""
      · rw [if_pos last, List.prefix_nil] at part
        exact absurd part ends
      · rw [if_neg last] at part
        exact .inr ⟨q, rfl, ends, _, nested.resolve_left last, part⟩
  · rintro ⟨g, hg, rfl | ⟨q, rfl, -, rest, hrest, part⟩⟩
    · obtain ⟨path, there, own⟩ := head_of_mem_group hg
      refine ⟨List.cons_ne_nil _ _, path, there, ?_⟩
      rw [steps_eq, own, List.cons_prefix_cons]
      exact ⟨rfl, List.nil_prefix⟩
    · obtain ⟨path, there, own, rfl, some_⟩ := nests_group paths g hg rest hrest
      refine ⟨List.cons_ne_nil _ _, path, there, ?_⟩
      rw [steps_eq, if_neg some_, own, List.cons_prefix_cons]
      exact ⟨rfl, part⟩

theorem begins_head {paths : List String} {n : String} {q : List String} (h : Begins paths (n :: q)) :
    Begins paths [n] := by
  obtain ⟨-, path, there, part⟩ := h
  exact ⟨List.cons_ne_nil _ _, path, there, (List.prefix_append [n] q).trans part⟩

end Relata.RelationPath
