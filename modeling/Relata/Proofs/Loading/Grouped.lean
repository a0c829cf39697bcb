import Relata.Loading.Eager

/-!
How loading is divided up: objects go by their class, paths by their first segment. Each object that is
there stands in a group, with objects of its class only; each path stands under its first segment, and
the rest of it among what follows that segment.
-/

namespace Relata

namespace Loader

variable {env : Env} {groups : List (ClassKey × List Value)}

/-- Some objects, all of the class that the group is for. -/
def Uniform (env : Env) (g : ClassKey × List Value) : Prop :=
  g.2 ≠ [] ∧ ∀ v ∈ g.2, classKey env v = g.1

theorem mem_addByClass {x v : Value} :
    (∃ g ∈ addByClass env groups x, v ∈ g.2) ↔ v = x ∨ ∃ g ∈ groups, v ∈ g.2 := by
  unfold addByClass
  dsimp only
  split
  · next known =>
    obtain ⟨own, there, same⟩ := List.any_eq_true.mp known
    constructor
    · rintro ⟨g, hg, hv⟩
      obtain ⟨was, before, rfl⟩ := List.mem_map.mp hg
      split at hv
      · rcases List.mem_append.mp hv with old | new
        · exact .inr ⟨was, before, old⟩
        · exact .inl (List.mem_singleton.mp new)
      · exact .inr ⟨was, before, hv⟩
    · rintro (rfl | ⟨g, before, hv⟩)
      · exact ⟨_, List.mem_map_of_mem there, by simp [same]⟩
      · refine ⟨_, List.mem_map_of_mem before, ?_⟩
        split
        · exact List.mem_append_left _ hv
        · exact hv
  · simp only [List.mem_append, List.mem_singleton, or_and_right, exists_or, exists_eq_left]
    exact or_comm

theorem uniform_addByClass (h : ∀ g ∈ groups, Uniform env g) (x : Value) :
    ∀ g ∈ addByClass env groups x, Uniform env g := by
  intro g there
  unfold addByClass at there
  dsimp only at there
  split at there
  · obtain ⟨was, before, rfl⟩ := List.mem_map.mp there
    split
    · next same =>
      refine ⟨by simp, fun v hv => ?_⟩
      rcases List.mem_append.mp hv with old | new
      · exact (h was before).2 v old
      · rw [List.mem_singleton.mp new]
        exact (beq_iff_eq.mp same).symm
    · exact h was before
  · rcases List.mem_append.mp there with old | new
    · exact h g old
    · obtain rfl := List.mem_singleton.mp new
      exact ⟨by simp, fun v hv => by rw [List.mem_singleton.mp hv]⟩

/-- The groups of a list of objects are made of its members. -/
theorem mem_byClass {objects : List Value} {v : Value} :
    (∃ g ∈ byClass env objects, v ∈ g.2) ↔ v ∈ objects ∧ v.isNull = false := by
  suffices ∀ (rest : List Value) (groups : List (ClassKey × List Value)),
      (∃ g ∈ rest.foldl (addByClass env) groups, v ∈ g.2) ↔ v ∈ rest ∨ ∃ g ∈ groups, v ∈ g.2 by
    rw [byClass, this]
    simp
  intro rest
  induction rest with
  | nil => simp
  | cons x rest ih =>
    intro groups
    rw [List.foldl_cons, ih, mem_addByClass, List.mem_cons, or_left_comm, or_assoc]

theorem uniform_byClass {objects : List Value} : ∀ g ∈ byClass env objects, Uniform env g := by
  suffices ∀ (rest : List Value) (groups : List (ClassKey × List Value)),
      (∀ g ∈ groups, Uniform env g) → ∀ g ∈ rest.foldl (addByClass env) groups, Uniform env g from
    this _ [] (List.forall_mem_nil _)
  intro rest
  induction rest with
  | nil => exact fun _ => id
  | cons x rest ih => exact fun groups before => ih _ (uniform_addByClass before x)

end Loader

theorem Text.cutAt_of_not_mem {sep : Char} {s : List Char} (h : sep ∉ s) :
    Text.cutAt sep s = (s, none) := by
  induction s with
  | nil => rfl
  | cons c rest ih =>
    simp only [List.mem_cons, not_or] at h
    simp [Text.cutAt, Ne.symm h.1, ih h.2]

namespace RelationPath

/-- A path without columns is read as it stands. -/
theorem parse_of_bare {path : String} (h : ':' ∉ path.toList) :
    parse (.text path) = .ok (.text path, []) := by
  simp [parse, read, Text.cutAt_of_not_mem h]

/-- The rest of a path has no more characters in it than the path. -/
theorem not_mem_rest {c : Char} {path : String} (h : c ∉ path.toList) :
    c ∉ (head path).2.toList := by
  rw [Text.cutAt_append '.' path.toList] at h
  unfold head
  dsimp only
  revert h
  cases (Text.cutAt '.' path.toList).2 with
  | none => simp
  | some rest =>
    intro h
    simp only [List.mem_append, List.mem_cons, not_or] at h
    simpa using h.2.2

theorem length_of_head {path : String} (h : (head path).2 ≠ "") :
    (head path).2.length < path.length := by
  have whole := congrArg List.length (Text.cutAt_append '.' path.toList)
  unfold head at h ⊢
  dsimp only at h ⊢
  revert h whole
  cases (Text.cutAt '.' path.toList).2 with
  | none => simp
  | some rest =>
    intro _ whole
    simp only [List.length_append, List.length_cons, String.length_toList] at whole
    simp only [Option.getD_some, String.length_ofList]
    omega

/-- The segments of a path. -/
def steps (path : String) : List String :=
  let rest := (head path).2
  if _ : rest = "" then [(head path).1] else (head path).1 :: steps rest
termination_by path.length
decreasing_by exact length_of_head ‹_›

theorem steps_eq (path : String) :
    steps path = (head path).1 :: if (head path).2 = "" then [] else steps (head path).2 := by
  rw [steps]
  split <;> rfl

theorem not_mem_head (path : String) : '.' ∉ (head path).1.toList := by
  rw [head, String.toList_ofList]
  exact Text.not_mem_cutAt_fst '.' path.toList

/-- Segments have no point in them. -/
theorem not_mem_of_mem_steps {path name : String} (there : name ∈ steps path) : '.' ∉ name.toList := by
  fun_induction steps path with
  | case1 path _ _ =>
    obtain rfl := List.mem_singleton.mp there
    exact not_mem_head path
  | case2 path _ _ ih =>
    rcases List.mem_cons.mp there with rfl | later
    · exact not_mem_head path
    · exact ih later

theorem cutAt_append_cons {sep : Char} {s t : List Char} (h : sep ∉ s) :
    Text.cutAt sep (s ++ sep :: t) = (s, some t) := by
  induction s with
  | nil => simp [Text.cutAt]
  | cons c rest ih =>
    simp only [List.mem_cons, not_or] at h
    simp [Text.cutAt, Ne.symm h.1, ih h.2]

theorem head_of_bare {name : String} (bare : '.' ∉ name.toList) : head name = (name, "") := by
  simp [head, Text.cutAt_of_not_mem bare]

theorem head_append {name rest : String} (bare : '.' ∉ name.toList) :
    head (name ++ "." ++ rest) = (name, rest) := by
  have chars : (name ++ "." ++ rest).toList = name.toList ++ '.' :: rest.toList := by simp
  simp [head, chars, cutAt_append_cons bare]

theorem mem_withRest {nested : List String} {rest r : String} :
    r ∈ withRest nested rest ↔ r ∈ nested ∨ r = rest ∧ rest ≠ "" := by
  unfold withRest
  by_cases none : rest = ""
  · simp [none]
  · by_cases there : rest ∈ nested
    · simp only [List.contains_eq_mem, there, decide_true, Bool.or_true, if_true]
      exact ⟨.inl, fun h => h.elim id fun own => own.1 ▸ there⟩
    · simp [none, there]

/-- A path stands in the groups if its first segment does, with the rest of it behind. -/
def Grouped (groups : List (String × List String)) (path : String) : Prop :=
  ∃ g ∈ groups, g.1 = (head path).1 ∧ ((head path).2 = "" ∨ (head path).2 ∈ g.2)

theorem addTo_eq (groups : List (String × List String)) (path : String) :
    addTo groups path = if groups.any (·.1 == (head path).1) then
      groups.map fun g =>
        if g.1 == (head path).1 then ((head path).1, withRest g.2 (head path).2) else g
    else groups ++ [((head path).1, withRest [] (head path).2)] := rfl

theorem grouped_addTo (groups : List (String × List String)) (path : String) :
    Grouped (addTo groups path) path := by
  have last (nested : List String) :
      (head path).2 = "" ∨ (head path).2 ∈ withRest nested (head path).2 := by
    rw [mem_withRest]
    by_cases none : (head path).2 = "" <;> simp [none]
  rw [addTo_eq]
  split
  · next known =>
    obtain ⟨own, there, same⟩ := List.any_eq_true.mp known
    refine ⟨_, List.mem_map_of_mem there, ?_⟩
    rw [if_pos same]
    exact ⟨rfl, last _⟩
  · exact ⟨_, List.mem_append_right _ (.head _), rfl, last _⟩

theorem Grouped.addTo {groups : List (String × List String)} {path : String}
    (h : Grouped groups path) (other : String) : Grouped (addTo groups other) path := by
  obtain ⟨g, there, own, rest⟩ := h
  rw [addTo_eq]
  split
  · refine ⟨_, List.mem_map_of_mem there, ?_⟩
    split
    · next same =>
      exact ⟨(beq_iff_eq.mp same).symm.trans own, rest.imp id fun h => mem_withRest.mpr (.inl h)⟩
    · exact ⟨own, rest⟩
  · exact ⟨g, List.mem_append_left _ there, own, rest⟩

/-- Every path stands in the groups. -/
theorem grouped_group {paths : List String} {path : String} (h : path ∈ paths) :
    Grouped (group paths) path := by
  suffices ∀ (rest : List String) (groups : List (String × List String)),
      path ∈ rest ∨ Grouped groups path → Grouped (rest.foldl RelationPath.addTo groups) path from
    this paths [] (.inl h)
  intro rest
  induction rest with
  | nil => exact fun _ h => h.resolve_left (by simp)
  | cons other rest ih =>
    refine fun groups h => ih _ ?_
    rcases h with here | before
    · rcases List.mem_cons.mp here with rfl | there
      · exact .inr (grouped_addTo groups path)
      · exact .inl there
    · exact .inr (before.addTo other)

/-- The groups are those of first segments. -/
theorem head_of_mem_group {paths : List String} {g : String × List String}
    (h : g ∈ group paths) : ∃ path ∈ paths, g.1 = (head path).1 := by
  suffices ∀ (rest : List String) (groups : List (String × List String)),
      (∀ path ∈ rest, path ∈ paths) → (∀ g ∈ groups, ∃ path ∈ paths, g.1 = (head path).1) →
        ∀ g ∈ rest.foldl RelationPath.addTo groups, ∃ path ∈ paths, g.1 = (head path).1 from
    this paths [] (fun _ => id) (List.forall_mem_nil _) g h
  intro rest
  induction rest with
  | nil => exact fun _ _ => id
  | cons path rest ih =>
    intro groups among before
    refine ih _ (fun path there => among path (.tail _ there)) fun g there => ?_
    rw [addTo_eq] at there
    split at there
    · obtain ⟨was, hwas, rfl⟩ := List.mem_map.mp there
      split
      · exact ⟨path, among path (.head _), rfl⟩
      · exact before was hwas
    · rcases List.mem_append.mp there with old | new
      · exact before g old
      · exact ⟨path, among path (.head _), by rw [List.mem_singleton.mp new]⟩

end RelationPath

end Relata
