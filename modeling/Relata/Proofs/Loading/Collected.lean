import Relata.Proofs.Loading.Visits

/-!
The collections that objects come into. A collection is made of new objects only, and each of its members
knows it from then on, until one of a later collection takes its place. What a fetch brings is in the
collection of its page first; where pages are merged it is in one more, the merged one, and in none after
that. So once a fetch has ended its objects are through with collections, and those that they know then
they know for good.
-/

namespace Relata

namespace Env

variable {env : Env} {o : ObjectId} {c c' : CollectionId}

/-- The object is there and has that collection as its own. -/
def Knows (env : Env) (o : ObjectId) (c : CollectionId) : Prop :=
  ∃ e, env.object? o = some e ∧ e.collection = some c

/-- The object is a member of the collection that it knows. -/
def Belongs (env : Env) (o : ObjectId) : Prop :=
  ∃ c members, env.collections[c]? = some members ∧ o ∈ members ∧ env.Knows o c

/-- The collection has these members and no others, and each of them knows it. -/
structure Unites (env : Env) (c : CollectionId) (members : List ObjectId) : Prop where
  collection : env.collections[c]? = some members
  knows : ∀ o ∈ members, env.Knows o c

theorem Knows.unique (h : env.Knows o c) (h' : env.Knows o c') : c = c' := by
  obtain ⟨e, there, own⟩ := h
  obtain ⟨e', there', own'⟩ := h'
  obtain rfl := Option.some.inj (there.symm.trans there')
  exact Option.some.inj (own.symm.trans own')

end Env

namespace SlotChange

theorem collection_onEntity (c : SlotChange) (e : Entity) : (c.onEntity e).collection = e.collection := by
  cases c with
  | set | forget => rfl
  | begin_ name =>
    rw [onEntity, Entity.beginLoading]
    split <;> rfl
  | abandon name =>
    rw [onEntity, Entity.abandonLoading]
    split <;> rfl

theorem eq_of_value?_onEntity {c : SlotChange} {e : Entity} {name : String} {x : Value}
    (value : (c.onEntity e).value? (.text name) = some x) :
    e.value? (.text name) = some x ∨ ∃ other, c = .set other x := by
  cases c with
  | set other y =>
    rw [onEntity, Entity.value?_setRelation_text] at value
    split at value
    · exact .inr ⟨other, by rw [Option.some.inj value]⟩
    · exact .inl value
  | forget other =>
    rw [onEntity, Entity.value?_forgetRelation_text] at value
    split at value
    · cases value
    · exact .inl value
  | begin_ other => exact .inl (by rwa [onEntity, Entity.value?_beginLoading] at value)
  | abandon other => exact .inl (by rwa [onEntity, Entity.value?_abandonLoading] at value)

end SlotChange

/-- Of the lists that something is a member of, the last one. -/
theorem exists_last_of_mem {α : Type} {a : α} {lists : List (List α)} (h : ∃ xs ∈ lists, a ∈ xs) :
    ∃ before xs after, lists = before ++ xs :: after ∧ a ∈ xs ∧ ∀ ys ∈ after, a ∉ ys := by
  induction lists with
  | nil => simp at h
  | cons xs rest ih =>
    by_cases later : ∃ ys ∈ rest, a ∈ ys
    · obtain ⟨before, ys, after, rfl, own, none_⟩ := ih later
      exact ⟨xs :: before, ys, after, rfl, own, none_⟩
    · obtain ⟨ys, there, own⟩ := h
      rcases List.mem_cons.mp there with rfl | there
      · exact ⟨[], ys, rest, rfl, own, fun zs hzs also => later ⟨zs, hzs, also⟩⟩
      · exact absurd ⟨ys, there, own⟩ later

namespace World

variable {τ : Type} {w s t u v : World τ} {made made' : List (List ObjectId)} {once once' : List ObjectId}
  {o : ObjectId} {c : CollectionId}

/-- The object is there in the later world and was not in the earlier one. -/
def Brought (w t : World τ) (o : ObjectId) : Prop := w.objects.size ≤ o ∧ o < t.objects.size

/-- What a relation has come to hold is new. -/
def Fills (w t : World τ) : Prop :=
  ∀ id (name : String) x, t.valueOf id name = some x →
    w.valueOf id name = some x ∨ ∀ y ∈ x.held, ∃ o, y = .object o ∧ w.Brought t o

/-- Collections are made of new objects, in this order. An object that is in none of them knows the one that
it knew, any other one knows the last of those that it is in. -/
structure Collects (w t : World τ) (made : List (List ObjectId)) : Prop where
  grows : w.Grows t
  collections : t.collections.toList = w.collections.toList ++ made
  fresh : ∀ members ∈ made, ∀ o ∈ members, w.Brought t o
  kept : ∀ {o c}, w.Knows o c → t.Knows o c
  latest : ∀ {before members after}, made = before ++ members :: after → ∀ o ∈ members,
    (∀ others ∈ after, o ∉ others) → t.Knows o (w.collections.size + before.length)
  fills : w.Fills t

/-- What was there has stayed, so the collections have got more. -/
theorem Grows.collections_prefix (h : w.Grows t) : w.collections.toList <+: t.collections.toList := by
  refine List.prefix_iff_getElem?.mpr fun i inside => ?_
  rw [Array.getElem?_toList]
  exact h.collection (by simp [Array.getElem?_eq_getElem (by simpa using inside)])

theorem knows_adopted (there : o < w.objects.size) (members : List ObjectId) :
    (w.adopted members).Knows o c ↔ if o ∈ members then c = w.collections.size else w.Knows o c := by
  obtain ⟨e, own⟩ : ∃ e, w.object? o = some e := ⟨_, Array.getElem?_eq_getElem there⟩
  simp only [Env.Knows, object?_adopted, own, Option.map_some, Option.some.injEq, exists_eq_left']
  split
  · simp [eq_comm]
  · rfl

theorem Brought.later (h : w.Brought s o) (grows : s.Grows t) : w.Brought t o :=
  ⟨h.1, h.2.trans_le grows.size_le⟩

theorem Brought.before (h : s.Brought t o) (grows : w.Grows s) : w.Brought t o :=
  ⟨grows.size_le.trans h.1, h.2⟩

/-- What a relation holds after some changes it held before, or it has been set to it. -/
theorem valueOf_changed {changes : List (ObjectId × SlotChange)} {id : ObjectId} {name : String} {x : Value}
    (value : (w.changed changes).valueOf id name = some x) :
    w.valueOf id name = some x ∨ ∃ c ∈ changes, ∃ other, c.2 = .set other x := by
  induction changes generalizing w with
  | nil => exact .inl value
  | cons c rest ih =>
    obtain value | ⟨c, there, own⟩ := ih value
    · rw [valueOf, object?_modified] at value
      split at value
      · cases there : w.object? id with
        | none => simp [there] at value
        | some e =>
          rw [there] at value
          refine (SlotChange.eq_of_value?_onEntity value).imp (fun still => ?_) fun own => ⟨c, .head _, own⟩
          rwa [valueOf, there]
      · exact .inl value
    · exact .inr ⟨c, .tail _ there, own⟩

theorem lt_size_of_knows (h : w.Knows o c) : o < w.objects.size := by
  obtain ⟨e, there, -⟩ := h
  exact (Array.getElem?_eq_some_iff.mp there).1

theorem unites_adopted {members : List ObjectId} (there : ∀ o ∈ members, o < w.objects.size) :
    (w.adopted members).Unites w.collections.size members where
  collection := by simp [World.adopted]
  knows o own := (knows_adopted (there o own) members).mpr (by simp [own])

/-- No change of a relation makes an object leave its collection. -/
theorem knows_changed (h : w.Knows o c) (changes : List (ObjectId × SlotChange)) :
    (w.changed changes).Knows o c := by
  induction changes generalizing w with
  | nil => exact h
  | cons change rest ih =>
    refine ih ?_
    obtain ⟨e, there, own⟩ := h
    rw [Env.Knows, object?_modified, there]
    split
    · exact ⟨_, rfl, (change.2.collection_onEntity e).trans own⟩
    · exact ⟨e, rfl, own⟩

namespace Collects

theorem refl (w : World τ) : w.Collects w [] where
  grows := .refl w
  collections := (List.append_nil _).symm
  fresh := by simp
  kept := id
  latest absurd := by simp at absurd
  fills _ _ _ value := .inl value

theorem size_collections (h : w.Collects t made) : t.collections.size = w.collections.size + made.length := by
  rw [← Array.length_toList, h.collections, List.length_append, Array.length_toList]

theorem trans (h : w.Collects s made) (h' : s.Collects t made') : w.Collects t (made ++ made') where
  grows := h.grows.trans h'.grows
  collections := by rw [h'.collections, h.collections, List.append_assoc]
  fresh members there o own := by
    rcases List.mem_append.mp there with there | there
    · exact (h.fresh members there o own).later h'.grows
    · exact (h'.fresh members there o own).before h.grows
  kept known := h'.kept (h.kept known)
  latest {before members after} split o own none_ := by
    have later (more : List (List ObjectId)) (listed : made' = more ++ members :: after) :
        t.Knows o (w.collections.size + (made ++ more).length) := by
      have known := h'.latest listed o own none_
      rwa [h.size_collections, Nat.add_assoc, ← List.length_append] at known
    obtain ⟨more, rfl, listed⟩ | ⟨more, early, listed⟩ := List.append_eq_append_iff.mp split
    · exact later more listed
    · cases more with
      | nil =>
        rw [List.append_nil] at early
        exact early ▸ List.append_nil made ▸ later [] listed.symm
      | cons _ more =>
        obtain ⟨rfl, rfl⟩ := List.cons.inj listed
        exact h'.kept (h.latest early o own fun others there => none_ others (List.mem_append_left _ there))
  fills id name x value := by
    obtain value | new := h'.fills id name x value
    · exact (h.fills id name x value).imp_right fun new y there =>
        (new y there).imp fun o own => ⟨own.1, own.2.later h'.grows⟩
    · exact .inr fun y there => (new y there).imp fun o own => ⟨own.1, own.2.before h.grows⟩

/-- Whatever else is done, objects stay in their collections. -/
theorem aside (h : w.Collects u made) (grows : u.Grows t) (collections : t.collections = u.collections)
    (known : ∀ {o c}, u.Knows o c → t.Knows o c)
    (fills : ∀ id (name : String) x, t.valueOf id name = some x →
      u.valueOf id name = some x ∨ ∀ y ∈ x.held, ∃ o, y = .object o ∧ w.Brought u o) :
    w.Collects t made where
  grows := h.grows.trans grows
  collections := collections ▸ h.collections
  fresh members there o own := (h.fresh members there o own).later grows
  kept own := known (h.kept own)
  latest split o own none_ := known (h.latest split o own none_)
  fills id name x value := by
    obtain value | new := fills id name x value
    · exact (h.fills id name x value).imp_right fun new y there =>
        (new y there).imp fun o own => ⟨own.1, own.2.later grows⟩
    · exact .inr fun y there => (new y there).imp fun o own => ⟨own.1, own.2.later grows⟩

/-- An object more, of which nothing is loaded. -/
theorem extended (w : World τ) {e : Entity} (bare : e.slots = []) : w.Collects (w.extended e) [] :=
  (refl w).aside (.of_push w e) rfl (fun ⟨_, there, own⟩ => ⟨_, object?_extended there, own⟩)
    fun id name x value => .inl (by
      rwa [valueOf_of_slotsOf ((w.untouched_extended bare).slots id) name] at value)

/-- New objects make a collection, which takes the place of those that they knew. -/
theorem adopted (h : w.Collects u made) {members : List ObjectId} (new : ∀ o ∈ members, w.Brought u o) :
    w.Collects (u.adopted members) (made ++ [members]) where
  grows := h.grows.trans (u.adds_adopted members).grows
  collections := by simp [World.adopted, h.collections]
  fresh others there o own := by
    rcases List.mem_append.mp there with there | there
    · exact (h.fresh others there o own).later (u.adds_adopted members).grows
    · obtain rfl := List.mem_singleton.mp there
      exact (new o own).later (u.adds_adopted others).grows
  kept {o c} known := by
    have old : o ∉ members := fun there => (lt_size_of_knows known).not_ge (new o there).1
    have still := h.kept known
    exact (knows_adopted (lt_size_of_knows still) members).mpr (by rwa [if_neg old])
  latest {before others after} split o own none_ := by
    rcases List.eq_nil_or_concat after with rfl | ⟨after, last, rfl⟩
    · obtain ⟨rfl, same⟩ := List.append_inj' split rfl
      obtain rfl := List.singleton_inj.mp same
      rw [← h.size_collections]
      exact (knows_adopted (new o own).2 members).mpr (by rw [if_pos own])
    · rw [List.concat_eq_append, ← List.cons_append, ← List.append_assoc] at split
      obtain ⟨rfl, same⟩ := List.append_inj' split rfl
      obtain rfl := List.singleton_inj.mp same
      have still := h.latest rfl o own fun x there => none_ x (by simp [there])
      exact (knows_adopted (lt_size_of_knows still) members).mpr (by rwa [if_neg (none_ members (by simp))])
  fills id name x value := by
    rw [valueOf_of_slotsOf ((u.untouched_adopted members).slots id) name] at value
    exact (h.fills id name x value).imp_right fun new y there =>
      (new y there).imp fun o own => ⟨own.1, own.2.later (u.adds_adopted members).grows⟩

/-- What is not new is in none of the collections. -/
theorem countP_eq_zero (h : w.Collects t made) (old : ¬ w.Brought t o) : made.countP (o ∈ ·) = 0 :=
  List.countP_eq_zero.mpr fun members there own =>
    old (h.fresh members there o (by simpa using own))

end Collects

/-- Collections are made so that each new object is in two of them in the end, or only in one if it is one of
those that are to be merged. -/
structure Enrols (w t : World τ) (made : List (List ObjectId)) (once : List ObjectId) : Prop
    extends w.Collects t made where
  due : ∀ o ∈ once, w.Brought t o
  tally : ∀ o, w.Brought t o → made.countP (o ∈ ·) = if o ∈ once then 1 else 2

namespace Enrols

/-- Where there are no new objects, none are in collections. -/
theorem of_size (h : w.Collects t []) (size : t.objects.size = w.objects.size) : w.Enrols t [] [] where
  toCollects := h
  due := by simp
  tally o new := absurd (size ▸ new.2) new.1.not_gt

theorem refl (w : World τ) : w.Enrols w [] [] := of_size (.refl w) rfl

theorem trans (h : w.Enrols s made once) (h' : s.Enrols t made' once') :
    w.Enrols t (made ++ made') (once ++ once') where
  toCollects := h.toCollects.trans h'.toCollects
  due o there := (List.mem_append.mp there).elim (fun there => (h.due o there).later h'.grows)
    fun there => (h'.due o there).before h.grows
  tally o new := by
    rw [List.countP_append]
    by_cases early : o < s.objects.size
    · have other : o ∉ once' := fun there => (h'.due o there).1.not_gt early
      rw [h.tally o ⟨new.1, early⟩, h'.toCollects.countP_eq_zero fun own => own.1.not_gt early]
      simp [other]
    · have other : o ∉ once := fun there => early (h.due o there).2
      rw [h'.tally o ⟨not_lt.mp early, new.2⟩, h.toCollects.countP_eq_zero fun own => early own.2]
      simp [other]

/-- Whatever else is done, objects stay in their collections. -/
theorem aside (h : w.Enrols u made once) (collects : w.Collects t made)
    (size : t.objects.size = u.objects.size) : w.Enrols t made once where
  toCollects := collects
  due o there := ⟨(h.due o there).1, size ▸ (h.due o there).2⟩
  tally o new := h.tally o ⟨new.1, size ▸ new.2⟩

/-- Marks and warnings have nothing to do with collections. -/
theorem of_objects (grows : w.Grows t) (objects : t.objects = w.objects)
    (collections : t.collections = w.collections) : w.Enrols t [] [] := by
  have same (id : ObjectId) : t.object? id = w.object? id := by rw [Env.object?, Env.object?, objects]
  refine of_size ((Collects.refl w).aside grows collections (fun {o c} known => ?_)
    fun id name x value => .inl ?_) (by rw [objects])
  · obtain ⟨e, there, own⟩ := known
    exact ⟨e, (same o).trans there, own⟩
  · rwa [valueOf, ← same]

/-- A relation is set to what is new, is asked for, or is forgotten. -/
theorem changed (h : w.Enrols u made once) {changes : List (ObjectId × SlotChange)}
    (new : ∀ c ∈ changes, ∀ name x, c.2 = .set name x → ∀ y ∈ x.held, ∃ o, y = .object o ∧ w.Brought u o) :
    w.Enrols (u.changed changes) made once := by
  refine h.aside (h.toCollects.aside (u.grows_changed changes) (by rw [u.changed_eq])
    (fun known => knows_changed known changes) fun id name x value => ?_) (u.size_changed changes)
  obtain value | ⟨c, there, other, same⟩ := valueOf_changed value
  · exact .inl value
  · exact .inr (new c there other x same)

/-- The objects that are made of rows are the members of a page, in the collection of which they are once
something has been loaded on them. -/
theorem page {members : List ObjectId} (rows : w.Collects s []) (all : ∀ o, o ∈ members ↔ w.Brought s o)
    (h : s.Enrols u made []) : w.Enrols (u.adopted members) (made ++ [members]) members where
  toCollects := (rows.trans h.toCollects).adopted fun o there => ((all o).mp there).later h.grows
  due o there := (((all o).mp there).later h.grows).later (u.adds_adopted members).grows
  tally o new := by
    rw [List.countP_append, List.countP_singleton]
    by_cases own : o ∈ members
    · rw [h.toCollects.countP_eq_zero fun later => later.1.not_gt ((all o).mp own).2]
      simp [own]
    · have late : s.Brought u o := by
        refine ⟨not_lt.mp fun early => own ((all o).mpr ⟨new.1, early⟩), ?_⟩
        simpa using new.2
      rw [h.tally o late]
      simp [own]

/-- The objects of pages come into the merged collection. -/
theorem merged (h : w.Enrols u made once) : w.Enrols (u.adopted once) (made ++ [once]) [] where
  toCollects := h.toCollects.adopted h.due
  due := by simp
  tally o new := by
    rw [List.countP_append, List.countP_singleton, h.tally o (by simpa [Brought] using new)]
    by_cases own : o ∈ once <;> simp [own]

/-- Every new object is in the collection that it knows. -/
theorem belongs (h : w.Enrols t made once) (new : w.Brought t o) : t.Belongs o := by
  have some_ : 0 < made.countP (o ∈ ·) := by
    rw [h.tally o new]
    split <;> decide
  obtain ⟨members, there, own⟩ := List.countP_pos_iff.mp some_
  obtain ⟨before, members, after, rfl, own, none_⟩ :=
    exists_last_of_mem ⟨members, there, of_decide_eq_true own⟩
  refine ⟨w.collections.size + before.length, members, ?_, own, h.latest rfl o own none_⟩
  rw [← Array.getElem?_toList, h.collections, List.getElem?_append_right (by simp)]
  simp

/-- The collection that an object knows when the fetch of it has ended is the one that it knows for good. -/
theorem settled (h : w.Enrols t made once) (before : w.Grows u) (piece : u.Enrols v made' [])
    (after : v.Grows t) (new : u.Brought v o) (known : v.Knows o c) : t.Knows o c := by
  obtain ⟨early, begun⟩ := before.collections_prefix
  obtain ⟨late, ended⟩ := after.collections_prefix
  have whole : made = early ++ made' ++ late := by
    have same := h.collections
    rw [← ended, piece.collections, ← begun] at same
    simpa using same.symm
  -- It has been in two collections by then, so there is none among the later ones.
  have twice : made'.countP (o ∈ ·) = 2 := by simpa using piece.tally o new
  have total := h.tally o ((new.later after).before before)
  rw [whole, List.countP_append, List.countP_append, twice] at total
  have none_ : late.countP (o ∈ ·) = 0 := by
    split at total <;> omega
  obtain ⟨members, there, own⟩ := List.countP_pos_iff.mp (twice ▸ Nat.two_pos)
  obtain ⟨first, members, rest, rfl, own, others⟩ :=
    exists_last_of_mem ⟨members, there, of_decide_eq_true own⟩
  obtain rfl := known.unique (piece.latest rfl o own others)
  have split_ : made = (early ++ first) ++ members :: (rest ++ late) := by simp [whole]
  have last := h.latest split_ o own fun others_ there => by
    rcases List.mem_append.mp there with there | there
    · exact others others_ there
    · simpa using List.countP_eq_zero.mp none_ others_ there
  rw [← Array.length_toList, ← begun, List.length_append, Array.length_toList]
  rwa [List.length_append, ← Nat.add_assoc] at last

end Enrols

end World

end Relata
