import Relata.Proofs.Loading.Levels

/-!
Tours. Where a load of paths has been is a list of stops, one for each relation that was loaded on all
objects of a level. Each stop is at a path that is wanted, none after a longer one, and what has
changed has changed at a stop. Tours of different first segments can be put together, and a tour of
what a relation leads to can be put behind the visit of that relation.
-/

namespace Relata

open Act (Runs Carries)

/-- A relation that was loaded: the segments down to it, the objects of its level, and the statements. -/
structure Stop where
  path : List String
  objects : List ObjectId
  sent : Dialogue

/-- The stop as it is seen from above a relation. -/
def Stop.below (name : String) (s : Stop) : Stop := { s with path := name :: s.path }

/-- Segments as they stand before a relation in its path, a point behind each of them. -/
def RelationPath.before : List String → String
  | [] => ""
  | name :: rest => name ++ "." ++ before rest

theorem RelationPath.before_concat (above : List String) (name : String) :
    before (above ++ [name]) = before above ++ name ++ "." := by
  induction above with
  | nil => simp [before]
  | cons first rest ih => simp [before, ih, String.append_assoc]

/-- Segments put together to a path are segments of it again, but for empty ones at the end. -/
theorem RelationPath.steps_joined_prefix {q : List String} {name : String}
    (bare : ∀ s ∈ q ++ [name], '.' ∉ s.toList) : steps (before q ++ name) <+: q ++ [name] := by
  induction q with
  | nil =>
    have own := head_of_bare (bare name (.head _))
    rw [before, String.empty_append, steps_eq, own]
    exact List.prefix_rfl
  | cons first rest ih =>
    obtain ⟨own, others⟩ := List.forall_mem_cons.mp bare
    rw [before, String.append_assoc, steps_eq, head_append own, List.cons_append, List.cons_prefix_cons]
    refine ⟨rfl, ?_⟩
    split
    · exact List.nil_prefix
    · exact ih others

namespace Loader

open RelationPath (before)

variable {τ : Type} {loader : Loader} {above : List String} {xs : List ObjectId} {w v t : World τ}
  {wanted others : List String → Prop} {whole : Prop} {stops more : List Stop} {name : String}

/-- The objects of the stop were of one class, and its relation was fetched for all of them in one
batch. -/
def Supplied (loader : Loader) (above : List String) (w t : World τ) (s : Stop) : Prop :=
  ∃ q name d m w', s.path = q ++ [name] ∧ w.Grows w' ∧ w.require m (.text name) = .ok d ∧
    (∀ id ∈ s.objects, w'.modelOfValue? (.object id) = some m) ∧
    Visit loader d m (before (above ++ q) ++ name) name s.objects w' t s.sent

/-- Where a load of the wanted paths has been, on the objects `xs`; `whole` says that it came to
its end. -/
structure Tour (loader : Loader) (above : List String) (xs : List ObjectId) (wanted : List String → Prop)
    (w t : World τ) (stops : List Stop) (whole : Prop) : Prop where
  grows : w.Grows t
  size : w.objects.size ≤ t.objects.size
  order : stops.Pairwise fun a b => ¬ b.path <+: a.path
  among : ∀ s ∈ stops, wanted s.path
  level : ∀ s ∈ stops, s.objects = t.level xs s.path.dropLast ∧ s.objects ≠ []
  changed : ∀ id name, t.valueOf id name ≠ w.valueOf id name →
    ∃ s ∈ stops, id ∈ s.objects ∧ s.path.getLast? = some name
  onward : ∀ id name v, w.objects.size ≤ id ∨ id ∈ xs ∧ wanted [name] → t.valueOf id name = some v →
    ∀ o ∈ v.leads, w.objects.size ≤ o ∧ o < t.objects.size
  supplied : ∀ s ∈ stops, whole ∨ s ∈ stops.dropLast → Supplied loader above w t s
  complete : whole → ∀ p, wanted p → t.level xs p.dropLast ≠ [] → ∃ s ∈ stops, s.path = p

/-- Wanted paths have a first segment, which is wanted by itself. -/
def Rooted (wanted : List String → Prop) : Prop := ∀ p, wanted p → ∃ name q, p = name :: q ∧ wanted [name]

namespace Tour

/-- Nothing that is changed later on has to do with relations. -/
theorem later {t' : World τ} (h : Tour loader above xs wanted w t stops whole) (adds : t.Adds t')
    (size : t'.objects.size = t.objects.size) : Tour loader above xs wanted w t' stops whole := by
  have same (id : ObjectId) (name : String) : t'.valueOf id name = t.valueOf id name :=
    World.valueOf_of_slotsOf (adds.untouched.slots id) name
  have level (p : List String) : t'.level xs p = t.level xs p :=
    (World.level_congr (R := fun _ => True) (fun _ _ _ _ _ => trivial) (fun id name _ => same id name)
      (fun _ _ => trivial) p).1
  exact {
    grows := h.grows.trans adds.grows
    size := h.size.trans size.ge
    order := h.order
    among := h.among
    level := fun s there => level _ ▸ h.level s there
    changed := fun id name ne => h.changed id name (same id name ▸ ne)
    onward := fun id name v from_ value o leads => by
      rw [same] at value
      rw [size]
      exact h.onward id name v from_ value o leads
    supplied := fun s there some_ => by
      obtain ⟨q, name, d, m, w', path, grows, found, model, visit⟩ := h.supplied s there some_
      exact ⟨q, name, d, m, w', path, grows, found, model, visit.later adds.grows fun id _ => same id name⟩
    complete := fun ended p want some_ => h.complete ended p want (level p.dropLast ▸ some_) }

/-- No stops: nothing was there to be loaded, or the load failed before. -/
theorem idle (lack : ∀ id ∈ xs, ∀ name, wanted [name] → w.valueOf id name = none)
    (none : whole → ∀ p, wanted p → w.level xs p.dropLast = []) :
    Tour loader above xs wanted w w [] whole where
  grows := .refl w
  size := le_rfl
  order := .nil
  among := List.forall_mem_nil _
  level := List.forall_mem_nil _
  changed _ _ ne := absurd rfl ne
  onward id name v from_ value := by
    have absent : w.valueOf id name = Option.none := from_.elim
      (fun new => World.valueOf_eq_none new name) fun own => lack id own.1 name own.2
    rw [absent] at value
    cases value
  supplied := List.forall_mem_nil _
  complete ended p want some_ := absurd (none ended p want) some_

/-- A tour that ended early is one of more paths. -/
theorem widen (h : Tour loader above xs wanted w t stops False) (failed : ¬ whole)
    (more : ∀ p, wanted p → others p)
    (lack : ∀ id ∈ xs, ∀ name, others [name] → ¬ wanted [name] → t.valueOf id name = none) :
    Tour loader above xs others w t stops whole where
  grows := h.grows
  size := h.size
  order := h.order
  among s there := more _ (h.among s there)
  level := h.level
  changed := h.changed
  onward id name v from_ value := by
    by_cases own : w.objects.size ≤ id ∨ id ∈ xs ∧ wanted [name]
    · exact h.onward id name v own value
    · have away : id ∈ xs ∧ others [name] := from_.resolve_left fun new => own (.inl new)
      rw [lack id away.1 name away.2 fun want => own (.inr ⟨away.1, want⟩)] at value
      cases value
  supplied s there some_ := h.supplied s there (.inr (some_.resolve_left failed))
  complete ended := absurd ended failed

section Stops

variable (h : Tour loader above xs wanted w t stops whole)
include h

/-- What is below a wanted segment is new. -/
theorem inside (want : wanted [name]) (q : List String) :
    ∀ o ∈ t.level xs (name :: q), w.objects.size ≤ o ∧ o < t.objects.size := by
  have next : ∀ ys name, (∀ o ∈ ys, w.objects.size ≤ o ∧ o < t.objects.size) →
      ∀ o ∈ t.onward ys name, w.objects.size ≤ o ∧ o < t.objects.size := fun ys name from_ o there => by
    obtain ⟨id, own, v, value, leads⟩ := World.mem_onward.mp there
    exact h.onward id name v (.inl (from_ id own).1) value o leads
  have begins : ∀ o ∈ t.onward xs name, w.objects.size ≤ o ∧ o < t.objects.size := fun o there => by
    obtain ⟨id, own, v, value, leads⟩ := World.mem_onward.mp there
    exact h.onward id name v (.inr ⟨own, want⟩) value o leads
  have same : t.level (t.onward xs name) q = t.level (t.onward xs name) q ∧
      ∀ o ∈ t.level (t.onward xs name) q, w.objects.size ≤ o ∧ o < t.objects.size :=
    World.level_congr next (fun _ _ _ => rfl) begins q
  exact same.2

/-- A stop is at the objects that the tour began with, or at new ones. -/
theorem cases_objects (rooted : Rooted wanted) {s : Stop} (there : s ∈ stops) :
    (∃ name, s.path = [name] ∧ wanted [name] ∧ s.objects = xs) ∨
      (∃ name q, s.path = name :: q ∧ wanted [name]) ∧
        ∀ o ∈ s.objects, w.objects.size ≤ o ∧ o < t.objects.size := by
  obtain ⟨name, q, path, want⟩ := rooted s.path (h.among s there)
  obtain ⟨level, -⟩ := h.level s there
  rw [path] at level
  cases q with
  | nil => exact .inl ⟨name, path, want, level⟩
  | cons second rest =>
    rw [List.dropLast_cons_of_ne_nil (List.cons_ne_nil _ _)] at level
    exact .inr ⟨⟨name, _, path, want⟩, level ▸ h.inside want _⟩

/-- Above a stop there are objects. -/
theorem level_ne {s : Stop} (there : s ∈ stops) {p q : List String} (path : s.path = p ++ q)
    (some_ : q ≠ []) : t.level xs p ≠ [] := by
  intro none
  obtain ⟨objects, present⟩ := h.level s there
  rw [path, List.dropLast_append_of_ne_nil some_, World.level_append, none, World.level_nil] at objects
  exact present objects

/-- No two stops are at the same path. -/
theorem nodup {α : Type} (f : Stop → α) (path : ∀ s s' : Stop, f s = f s' → s.path = s'.path) :
    (stops.map f).Nodup :=
  List.pairwise_map.mpr (h.order.imp fun apart same => apart (path _ _ same ▸ List.prefix_rfl))

/-- A tour that came to its end has loaded each wanted path that there are objects for. -/
theorem loaded_iff (ended : whole) {p : List String} (want : wanted p) :
    t.Loaded xs p ↔ t.level xs p.dropLast ≠ [] := by
  refine ⟨And.left, fun some_ => ⟨some_, fun id own => ?_⟩⟩
  obtain ⟨s, there, rfl⟩ := h.complete ended p want some_
  obtain ⟨objects, -⟩ := h.level s there
  obtain ⟨q, name, d, m, w', path, -, -, -, visit⟩ := h.supplied s there (.inl ended)
  obtain ⟨_, _, -, -, -, -, held⟩ := visit.batch
  obtain ⟨key, -, value⟩ := held id (objects ▸ own)
  exact ⟨name, _, by rw [path, List.getLast?_concat], value⟩

/-- A relation of the objects that the tour began with is left alone when it is not wanted. -/
theorem aside (rooted : Rooted wanted) (present : ∀ id ∈ xs, id < w.objects.size) {id : ObjectId}
    (own : id ∈ xs) (away : ¬ wanted [name]) : t.valueOf id name = w.valueOf id name := by
  by_contra changed
  obtain ⟨s, there, at_, last⟩ := h.changed id name changed
  obtain ⟨name', path, want, -⟩ | ⟨-, new⟩ := h.cases_objects rooted there
  · rw [path, List.getLast?_singleton] at last
    exact away (Option.some.inj last ▸ want)
  · exact absurd (new id at_).1 (Nat.not_le_of_lt (present id own))

end Stops

section Append

/-! One tour after another, of paths that begin with other segments. -/

variable (first : Tour loader above xs wanted w v stops True)
  (second : Tour loader above xs others v t more whole) (rooted' : Rooted others)
  (apart : ∀ name, wanted [name] → ¬ others [name]) (present : ∀ id ∈ xs, id < w.objects.size)
include first second rooted' apart present

/-- The second tour leaves what the first one has set. -/
theorem kept {id : ObjectId} {name : String}
    (own : id ∈ xs ∧ wanted [name] ∨ w.objects.size ≤ id ∧ id < v.objects.size) :
    t.valueOf id name = v.valueOf id name := by
  by_contra changed
  obtain ⟨s, there, at_, last⟩ := second.changed id name changed
  obtain ⟨name', path, want, objects⟩ | ⟨-, new⟩ := second.cases_objects rooted' there
  · rw [objects] at at_
    rw [path, List.getLast?_singleton] at last
    obtain rfl := Option.some.inj last
    rcases own with ⟨-, own⟩ | ⟨own, -⟩
    · exact apart _ own want
    · exact absurd own (Nat.not_le_of_lt (present id at_))
  · have late := (new id at_).1
    rcases own with ⟨own, -⟩ | ⟨-, own⟩
    · exact absurd late (Nat.not_le_of_lt ((present id own).trans_le first.size))
    · exact absurd late (Nat.not_le_of_lt own)

theorem level_kept (want : wanted [name]) (q : List String) :
    t.level xs (name :: q) = v.level xs (name :: q) := by
  have kept {id : ObjectId} {name : String} (own : id ∈ xs ∧ wanted [name] ∨
      w.objects.size ≤ id ∧ id < v.objects.size) := kept first second rooted' apart present own
  have next : ∀ ys name, (∀ o ∈ ys, w.objects.size ≤ o ∧ o < v.objects.size) →
      ∀ o ∈ v.onward ys name, w.objects.size ≤ o ∧ o < v.objects.size := fun ys name from_ o there => by
    obtain ⟨id, own, x, value, leads⟩ := World.mem_onward.mp there
    exact first.onward id name x (.inl (from_ id own).1) value o leads
  rw [World.level, World.level, World.onward_congr fun id own => kept (.inl ⟨own, want⟩)]
  exact (World.level_congr next (fun _ _ own => kept (.inr own)) (first.inside want []) q).1

variable (rooted : Rooted wanted)
include rooted

theorem supplied_kept {s : Stop} (there : s ∈ stops) (h : Supplied loader above w v s) :
    Supplied loader above w t s := by
  obtain ⟨q, name, d, m, w', path, grows, found, model, visit⟩ := h
  refine ⟨q, name, d, m, w', path, grows, found, model, visit.later second.grows fun id own => ?_⟩
  refine kept first second rooted' apart present ?_
  obtain ⟨name', single, want, objects⟩ | ⟨-, new⟩ := first.cases_objects rooted there
  · rw [path] at single
    obtain rfl : name = name' := by simpa using congrArg List.getLast? single
    exact .inl ⟨objects ▸ own, want⟩
  · exact .inr (new id own)

theorem append : Tour loader above xs (fun p => wanted p ∨ others p) w t (stops ++ more) whole where
  grows := first.grows.trans second.grows
  size := first.size.trans second.size
  order := by
    refine List.pairwise_append.mpr ⟨first.order, second.order, fun a ha b hb part => ?_⟩
    obtain ⟨name, q, path, want⟩ := rooted _ (first.among a ha)
    obtain ⟨name', q', path', want'⟩ := rooted' _ (second.among b hb)
    rw [path, path', List.cons_prefix_cons] at part
    exact apart name want (part.1 ▸ want')
  among := List.forall_mem_append.mpr
    ⟨fun s there => .inl (first.among s there), fun s there => .inr (second.among s there)⟩
  level := by
    refine List.forall_mem_append.mpr ⟨fun s there => ?_, second.level⟩
    obtain ⟨level, some_⟩ := first.level s there
    refine ⟨level.trans ?_, some_⟩
    obtain ⟨name, q, path, want⟩ := rooted s.path (first.among s there)
    rw [path]
    cases q with
    | nil => rfl
    | cons second' rest =>
      rw [List.dropLast_cons_of_ne_nil (List.cons_ne_nil _ _)]
      exact (level_kept first second rooted' apart present want _).symm
  changed id name ne := by
    by_cases late : t.valueOf id name = v.valueOf id name
    · obtain ⟨s, there, own⟩ := first.changed id name (late ▸ ne)
      exact ⟨s, List.mem_append_left _ there, own⟩
    · obtain ⟨s, there, own⟩ := second.changed id name late
      exact ⟨s, List.mem_append_right _ there, own⟩
  onward id name x from_ value o leads := by
    by_cases late : t.valueOf id name = v.valueOf id name
    · rcases from_ with new | ⟨own, want | want⟩
      · obtain ⟨low, high⟩ := first.onward id name x (.inl new) (late ▸ value) o leads
        exact ⟨low, high.trans_le second.size⟩
      · obtain ⟨low, high⟩ := first.onward id name x (.inr ⟨own, want⟩) (late ▸ value) o leads
        exact ⟨low, high.trans_le second.size⟩
      · obtain ⟨low, high⟩ := second.onward id name x (.inr ⟨own, want⟩) value o leads
        exact ⟨first.size.trans low, high⟩
    · have from' : v.objects.size ≤ id ∨ id ∈ xs ∧ others [name] := by
        obtain ⟨s, there, at_, last⟩ := second.changed id name late
        obtain ⟨name', path, want, objects⟩ | ⟨-, new⟩ := second.cases_objects rooted' there
        · rw [path, List.getLast?_singleton] at last
          exact .inr ⟨objects ▸ at_, Option.some.inj last ▸ want⟩
        · exact .inl (new id at_).1
      obtain ⟨low, high⟩ := second.onward id name x from' value o leads
      exact ⟨first.size.trans low, high⟩
  supplied := by
    have early (s : Stop) (there : s ∈ stops) : Supplied loader above w t s :=
      supplied_kept first second rooted' apart present rooted there
        (first.supplied s there (.inl trivial))
    have late (s : Stop) (there : s ∈ more) (some_ : whole ∨ s ∈ more.dropLast) :
        Supplied loader above w t s := by
      obtain ⟨q, name, d, m, w', path, grows, found, model, visit⟩ := second.supplied s there some_
      exact ⟨q, name, d, m, w', path, first.grows.trans grows, first.grows.lookup ▸ found, model, visit⟩
    intro s there some_
    rcases List.mem_append.mp there with own | own
    · exact early s own
    · rcases some_ with ended | last
      · exact late s own (.inl ended)
      · rw [List.dropLast_append] at last
        split at last
        · exact early s (List.mem_of_mem_dropLast last)
        · rcases List.mem_append.mp last with before | own'
          · exact early s before
          · exact late s own (.inr own')
  complete ended p want some_ := by
    rcases want with want | want
    · obtain ⟨name, q, rfl, head⟩ := rooted p want
      have some' : v.level xs (name :: q).dropLast ≠ [] := by
        cases q with
        | nil => exact some_
        | cons second' rest =>
          rw [List.dropLast_cons_of_ne_nil (List.cons_ne_nil _ _)] at some_ ⊢
          rwa [level_kept first second rooted' apart present head] at some_
      obtain ⟨s, there, path⟩ := first.complete trivial _ want some'
      exact ⟨s, List.mem_append_left _ there, path⟩
    · obtain ⟨s, there, path⟩ := second.complete ended p want some_
      exact ⟨s, List.mem_append_right _ there, path⟩

end Append

/-- A visit by itself is a tour of one stop. -/
theorem visited {d : Descriptor} {m : Model} {sent : Dialogue} (some_ : xs ≠ [])
    (grounded : w.catalog.Grounded) (model : ∀ id ∈ xs, w.modelOfValue? (.object id) = some m)
    (lack : ∀ id ∈ xs, w.valueOf id name = none) (found : w.require m (.text name) = .ok d)
    (alters : w.Alters xs name t) (came : Visit loader d m (before above ++ name) name xs w t sent ∨
      ¬ whole ∧ ∀ id other, t.valueOf id other = w.valueOf id other) :
    Tour loader above xs (· = [name]) w t [⟨[name], xs, sent⟩] whole where
  grows := alters.grows
  size := alters.size
  order := List.pairwise_singleton _ _
  among := List.forall_mem_singleton.mpr rfl
  level := List.forall_mem_singleton.mpr ⟨rfl, some_⟩
  changed id other ne := by
    refine ⟨_, .head _, by_contra fun away => ne ?_, congrArg some <| by_contra fun away => ne ?_⟩
    · exact World.valueOf_of_slotsOf (alters.apart id away) other
    · exact alters.others id other fun same => away same.symm
  onward id other x from_ value o leads := by
    rcases from_ with new | ⟨own, same⟩
    · have away : id ∉ xs := fun own =>
        absurd (World.lt_size_of_modelOfValue? (model id own)) (Nat.not_lt_of_le new)
      rw [World.valueOf_of_slotsOf (alters.apart id away), World.valueOf_eq_none new] at value
      cases value
    · obtain rfl : other = name := by simpa using same
      rcases came with visit | ⟨-, unchanged⟩
      · obtain ⟨y, value', objects⟩ := visit.leads grounded id own
        obtain rfl := Option.some.inj (value.symm.trans value')
        obtain ⟨o', same, late, _, -, there⟩ := objects _ (Value.mem_leads.mp leads)
        obtain rfl := Value.object.inj same
        exact ⟨late, World.lt_size_of_modelOfValue? there⟩
      · rw [unchanged, lack id own] at value
        cases value
  supplied := List.forall_mem_singleton.mpr fun ended => by
    have visit := came.resolve_right fun failed => failed.1 (ended.resolve_right (by simp))
    exact ⟨[], name, d, m, w, rfl, .refl w, found, model, by rwa [List.append_nil]⟩
  complete _ p want _ := ⟨_, .head _, want.symm⟩

section Under

/-! A tour of what a relation leads to, behind the visit of the relation. -/

variable {sent : Dialogue} (first : Tour loader above xs (· = [name]) w v [⟨[name], xs, sent⟩] True)
  (second : Tour loader (above ++ [name]) (v.onward xs name) wanted v t more whole)
  (rooted : Rooted wanted) (present : ∀ id ∈ xs, id < w.objects.size)
include first second rooted

/-- All stops of the second tour are at new objects. -/
theorem new_of_stop {s : Stop} (there : s ∈ more) : ∀ o ∈ s.objects, w.objects.size ≤ o := by
  intro o own
  obtain ⟨_, -, -, objects⟩ | ⟨-, new⟩ := second.cases_objects rooted there
  · rw [objects] at own
    exact (first.inside rfl [] o own).1
  · exact first.size.trans (new o own).1

theorem kept_above {id : ObjectId} (old : id < w.objects.size) (other : String) :
    t.valueOf id other = v.valueOf id other := by
  by_contra changed
  obtain ⟨s, there, at_, -⟩ := second.changed id other changed
  exact absurd (new_of_stop first second rooted there id at_) (Nat.not_le_of_lt old)

include present

theorem level_under (q : List String) : t.level xs (name :: q) = t.level (v.onward xs name) q := by
  rw [World.level, World.onward_congr fun id own => kept_above first second rooted (present id own) name]

theorem under : Tour loader above xs (fun p => p = [name] ∨ ∃ q, p = name :: q ∧ wanted q) w t
    (⟨[name], xs, sent⟩ :: more.map (·.below name)) whole where
  grows := first.grows.trans second.grows
  size := first.size.trans second.size
  order := by
    refine .cons (List.forall_mem_map.mpr fun s there part => ?_) (List.pairwise_map.mpr ?_)
    · obtain ⟨_, _, path, -⟩ := rooted s.path (second.among s there)
      simp [Stop.below, path] at part
    · exact second.order.imp fun apart part => apart ((List.cons_prefix_cons.mp part).2)
  among := List.forall_mem_cons.mpr
    ⟨.inl rfl, List.forall_mem_map.mpr fun s there => .inr ⟨_, rfl, second.among s there⟩⟩
  level := by
    refine List.forall_mem_cons.mpr
      ⟨⟨rfl, (first.level _ (.head _)).2⟩, List.forall_mem_map.mpr fun s there => ?_⟩
    obtain ⟨level, some_⟩ := second.level s there
    obtain ⟨_, _, path, -⟩ := rooted s.path (second.among s there)
    refine ⟨?_, some_⟩
    change s.objects = t.level xs (name :: s.path).dropLast
    rw [List.dropLast_cons_of_ne_nil (by simp [path]), level_under first second rooted present]
    exact level
  changed id other ne := by
    by_cases late : t.valueOf id other = v.valueOf id other
    · obtain ⟨s, there, own⟩ := first.changed id other (late ▸ ne)
      obtain rfl := List.mem_singleton.mp there
      exact ⟨_, .head _, own⟩
    · obtain ⟨s, there, at_, last⟩ := second.changed id other late
      obtain ⟨_, _, path, -⟩ := rooted s.path (second.among s there)
      refine ⟨_, .tail _ (List.mem_map_of_mem there), at_, ?_⟩
      change (name :: s.path).getLast? = _
      rw [← last, path, List.getLast?_cons_cons]
  onward id other x from_ value o leads := by
    by_cases late : t.valueOf id other = v.valueOf id other
    · have from' : w.objects.size ≤ id ∨ id ∈ xs ∧ [other] = [name] := by
        refine from_.imp_right fun ⟨own, want⟩ => ⟨own, want.resolve_right ?_⟩
        rintro ⟨q, same, want⟩
        obtain ⟨_, _, path, -⟩ := rooted q want
        rw [path] at same
        cases same
      obtain ⟨low, high⟩ := first.onward id other x from' (late ▸ value) o leads
      exact ⟨low, high.trans_le second.size⟩
    · obtain ⟨s, there, at_, last⟩ := second.changed id other late
      have from' : v.objects.size ≤ id ∨ id ∈ v.onward xs name ∧ wanted [other] := by
        obtain ⟨name', path, want, objects⟩ | ⟨-, new⟩ := second.cases_objects rooted there
        · rw [path, List.getLast?_singleton] at last
          exact .inr ⟨objects ▸ at_, Option.some.inj last ▸ want⟩
        · exact .inl (new id at_).1
      obtain ⟨low, high⟩ := second.onward id other x from' value o leads
      exact ⟨first.size.trans low, high⟩
  supplied := by
    refine List.forall_mem_cons.mpr ⟨fun _ => ?_, List.forall_mem_map.mpr fun s there some_ => ?_⟩
    · obtain ⟨q, last, d, m, w', path, grows, found, model, visit⟩ :=
        first.supplied _ (.head _) (.inl trivial)
      exact ⟨q, last, d, m, w', path, grows, found, model, visit.later second.grows fun id own =>
        kept_above first second rooted (present id own) last⟩
    · have ended : whole ∨ s ∈ more.dropLast := by
        refine some_.imp_right fun before => ?_
        have some' : more.map (·.below name) ≠ [] := by simpa using List.ne_nil_of_mem there
        rw [List.dropLast_cons_of_ne_nil some', ← List.map_dropLast] at before
        obtain ⟨_, _, path, -⟩ := rooted s.path (second.among s there)
        rcases List.mem_cons.mp before with absurd | before
        · simp [Stop.below, path] at absurd
        · obtain ⟨s', there', same⟩ := List.mem_map.mp before
          obtain rfl : s' = s := by
            simp only [Stop.below, Stop.mk.injEq, List.cons.injEq, true_and] at same
            cases s
            cases s'
            simpa using same
          exact there'
      obtain ⟨q, last, d, m, w', path, grows, found, model, visit⟩ := second.supplied s there ended
      refine ⟨name :: q, last, d, m, w', congrArg (name :: ·) path, first.grows.trans grows,
        first.grows.lookup ▸ found, model, ?_⟩
      rwa [List.append_assoc] at visit
  complete ended p want some_ := by
    rcases want with rfl | ⟨q, rfl, want⟩
    · exact ⟨_, .head _, rfl⟩
    · obtain ⟨_, _, path, -⟩ := rooted q want
      rw [List.dropLast_cons_of_ne_nil (by simp [path]), level_under first second rooted present] at some_
      obtain ⟨s, there, own⟩ := second.complete ended q want some_
      exact ⟨_, .tail _ (List.mem_map_of_mem there), congrArg (name :: ·) own⟩

end Under

end Tour

end Loader

end Relata
