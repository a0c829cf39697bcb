import Relata.Schema.Catalog

/-!
Every class is found by name. A class is entered after its bases, so from any class the first bases
lead down to the root in fewer steps than there are classes; the order in which names are looked up
reaches as deep as that.
-/

namespace Relata

namespace Catalog

variable {c c' : Catalog} {d : Definition} {m : Model}

/-- The catalogs that come of definitions, none of them of a class without a base. -/
inductive Defined : Catalog → Prop
  | empty : Defined empty
  | define {c c' : Catalog} {d : Definition} : Defined c → d.bases ≠ some [] → c.define d = .ok c' →
    Defined c'

/-- A base that is there before the class numbered `n`. -/
def Precedes (n : Nat) (base : Ancestor) : Prop := base = .root ∨ ∃ j < n, base = .model j

/-- Each model stands at its number. -/
def Numbered (c : Catalog) : Prop := ∀ i m, c.model? i = some m → m.id = i

theorem Numbered.mem (h : c.Numbered) (there : m ∈ c.models) : c.model? m.id = some m := by
  obtain ⟨i, found⟩ := Array.mem_iff_getElem?.mp there
  rw [h i m found]
  exact found

theorem Numbered.id_lt (h : c.Numbered) (there : m ∈ c.models) : m.id < c.models.size :=
  (Array.getElem?_eq_some_iff.mp (h.mem there)).1

/-- Each model stands at its number, and one of its bases comes before it. -/
structure Grounded (c : Catalog) : Prop where
  numbered : c.Numbered
  based : ∀ i m, c.model? i = some m → ∃ base ∈ m.bases, Precedes i base

theorem Grounded.mem (h : c.Grounded) (there : m ∈ c.models) : c.model? m.id = some m :=
  h.numbered.mem there

theorem Grounded.id_lt (h : c.Grounded) (there : m ∈ c.models) : m.id < c.models.size :=
  h.numbered.id_lt there

/-- The model found by a key is one of the catalog. -/
theorem mem_of_byKey? {key : String} (h : c.byKey? key = some m) : m ∈ c.models := by
  have member := List.mem_of_find?_eq_some h
  simpa using member

/-- The bases that keys stand for are there before the class that names them. -/
theorem Numbered.precedes_of_mapM (h : c.Numbered) {keys : List String} {bases : List Ancestor}
    (read : keys.mapM (fun key => match c.byKey? key with
      | some m => Except.ok (Ancestor.model m.id)
      | none => if key = "Model" then .ok .root else .error Error.noKey) = .ok bases) :
    bases.length = keys.length ∧ ∀ base ∈ bases, Precedes c.models.size base := by
  induction keys generalizing bases with
  | nil =>
    cases read
    exact ⟨rfl, fun _ none => nomatch none⟩
  | cons key rest ih =>
    rw [List.mapM_cons] at read
    obtain ⟨first, hfirst, read⟩ := ok_of_bind read
    obtain ⟨others, hothers, read⟩ := ok_of_bind read
    cases read
    obtain ⟨length, precede⟩ := ih hothers
    refine ⟨congrArg (· + 1) length, List.forall_mem_cons.mpr ⟨?_, precede⟩⟩
    split at hfirst
    · next m found =>
      cases hfirst
      exact .inr ⟨m.id, h.id_lt (mem_of_byKey? found), rfl⟩
    · split at hfirst
      · cases hfirst
        exact .inl rfl
      · cases hfirst

/-- What a definition makes of the settings of the class that it enters. -/
structure Endows (c : Catalog) (d : Definition) (m : Model) : Prop where
  table : m.namedTable = firstTruthy [d.settings.table,
    (c.fromBases m.bases none fun b => unlessNull b.namedTable).getD .null]
  softDeletes : m.softDeletes = if d.settings.softDeletes.isNull then
      (c.fromBases m.bases (some false) fun b => some b.softDeletes).getD false
    else d.settings.softDeletes.truthy
  connection : m.connection = firstTruthy [d.settings.connection,
    (c.fromBases m.bases (some (.text "default")) fun b => some b.connection).getD
      (.text "default")]
  defaultWith : listed d.settings.defaultWith
    ((c.fromBases m.bases (some []) fun b => some b.defaultWith).getD []) = .ok m.defaultWith
  hidden : listed d.settings.hidden
    ((c.fromBases m.bases (some []) fun b => some b.hidden).getD []) = .ok m.hidden

/-- The static table that is written on an ancestor itself. -/
def ownStaticOf (c : Catalog) : Ancestor → Option (List (String × StaticEntry))
  | .model id => (c.model? id).bind (·.ownStatic)
  | _ => none

theorem findSome?_ownStatic (ancestors : List Ancestor) :
    (ancestors.filterMap fun | .model id => c.model? id | _ => none).findSome? (·.ownStatic) =
      ancestors.findSome? c.ownStaticOf := by
  rw [← List.head?_filterMap, List.filterMap_filterMap, List.head?_filterMap]
  congr 1
  funext a
  cases a <;> rfl

/-- What a definition makes of the class that it enters: its number, its bases, the order of its
ancestry, its tables of relations and its settings. -/
structure Completes (c : Catalog) (d : Definition) (m : Model) : Prop where
  numbered : m.id = c.models.size
  early : ∀ base ∈ m.bases, base = .deletion ∨ Precedes c.models.size base
  based : d.bases ≠ some [] → ∃ base ∈ m.bases, Precedes c.models.size base
  ordered : Linearization.of (.model m.id) m.bases (m.bases.map c.orderOf) = some m.ancestry
  declared : m.declared = c.inheritDeclared m.id d.relations (m.ancestry.drop 1)
  written : m.ownStatic = d.static
  static : m.static = (d.static.or ((m.ancestry.drop 1).findSome? c.ownStaticOf)).getD []
  endowed : c.Endows d m

/-- The field of deleted rows passes no setting on. -/
theorem fromBases_concat_deletion {α : Type} (bases : List Ancestor) (root : Option α)
    (get : Model → Option α) :
    c.fromBases (bases ++ [.deletion]) root get = c.fromBases bases root get := by
  simp [fromBases]

/-- What a definition enters: one more model. -/
theorem Numbered.define_eq_ok (h : c.Numbered) (entered : c.define d = .ok c') :
    ∃ m, c' = ⟨c.models.push m⟩ ∧ c.Completes d m := by
  unfold define at entered
  extract_lets kw id complete at entered
  have read : ∃ bases, (∀ base ∈ bases, Precedes c.models.size base) ∧
      (d.bases ≠ some [] → bases ≠ []) ∧ complete bases = .ok c' := by
    split at entered
    · exact ⟨[.root], by simp [Precedes], fun _ => List.cons_ne_nil _ _, entered⟩
    · next keys hkeys =>
      obtain ⟨bases, hbases, entered⟩ := ok_of_bind entered
      obtain ⟨length, precede⟩ := h.precedes_of_mapM hbases
      refine ⟨bases, precede, fun based empty => based ?_, entered⟩
      rw [empty] at length
      rw [hkeys, List.length_eq_zero_iff.mp length.symm]
  obtain ⟨bases, precede, some_, entered⟩ := read
  unfold complete at entered
  extract_lets inherited softDeletes marked allBases at entered
  have kept : ∀ base ∈ bases, base ∈ allBases := by
    intro base own
    unfold allBases
    split
    · exact List.mem_append_left _ own
    · exact own
  have early : ∀ base ∈ allBases, base = .deletion ∨ Precedes c.models.size base := by
    intro base own
    unfold allBases at own
    split at own
    · rcases List.mem_append.mp own with own | last
      · exact .inr (precede base own)
      · exact .inl (List.mem_singleton.mp last)
    · exact .inr (precede base own)
  have based : d.bases ≠ some [] → ∃ base ∈ allBases, Precedes c.models.size base := fun given => by
    obtain ⟨base, own⟩ := List.exists_mem_of_ne_nil _ (some_ given)
    exact ⟨base, kept base own, precede base own⟩
  have same {α : Type} (root : Option α) (get : Model → Option α) :
      c.fromBases allBases root get = c.fromBases bases root get := by
    unfold allBases
    split
    · exact fromBases_concat_deletion bases root get
    · rfl
  split at entered
  · cases entered
  · next ancestry ordered =>
    extract_lets ancestors models fill at entered
    have filled : ∃ morphTypes, fill morphTypes = .ok c' := by
      split at entered
      · obtain ⟨morphTypes, -, entered⟩ := ok_of_bind entered
        exact ⟨morphTypes, entered⟩
      · exact ⟨[], entered⟩
    obtain ⟨morphTypes, entered⟩ := filled
    obtain ⟨defaultWith, loads, entered⟩ := ok_of_bind entered
    obtain ⟨hidden, hides, entered⟩ := ok_of_bind entered
    dsimp only at entered
    split at entered
    · cases entered
    · cases entered
      refine ⟨_, rfl, rfl, early, based, ordered, rfl, rfl, ?_, ⟨?_, ?_, ?_, ?_, ?_⟩⟩
      · exact congrArg (fun table => (d.static.or table).getD []) (findSome?_ownStatic ancestors)
      · rw [same]
      · rw [same]
      · rw [same]
      · rwa [same]
      · rwa [same]

/-- The models after one more is entered. -/
theorem model?_push {i : ModelId} {own : Model} :
    (⟨c.models.push m⟩ : Catalog).model? i = some own ↔
      c.model? i = some own ∨ (i = c.models.size ∧ own = m) := by
  rw [model?, model?, Array.getElem?_push]
  split
  · next last => simp [last, eq_comm]
  · next other => simp [other]

theorem Numbered.push (h : c.Numbered) (numbered : m.id = c.models.size) :
    (⟨c.models.push m⟩ : Catalog).Numbered := by
  intro i own found
  rcases model?_push.mp found with old | ⟨rfl, rfl⟩
  · exact h i own old
  · exact numbered

theorem Defined.foldlM {ds : List Definition} (h : c.Defined) (based : ∀ d ∈ ds, d.bases ≠ some [])
    (made : ds.foldlM Catalog.define c = .ok c') : c'.Defined := by
  induction ds generalizing c with
  | nil =>
    cases made
    exact h
  | cons d rest ih =>
    obtain ⟨between, entered, made⟩ := ok_of_bind made
    exact ih (h.define (based d (.head _)) entered) (fun d own => based d (.tail _ own)) made

theorem Defined.grounded (h : c.Defined) : c.Grounded := by
  induction h with
  | empty => exact ⟨fun _ _ found => (nomatch found), fun _ _ found => (nomatch found)⟩
  | @define c c' d _ based entered ih =>
    obtain ⟨m, rfl, completes⟩ := ih.numbered.define_eq_ok entered
    refine ⟨ih.numbered.push completes.numbered, fun i own found => ?_⟩
    rcases model?_push.mp found with old | ⟨rfl, rfl⟩
    · exact ih.based i own old
    · exact completes.based based

theorem mem_children {base : Ancestor} (there : m ∈ c.models) (own : base ∈ m.bases) :
    m.id ∈ c.children base := by
  unfold children
  refine List.mem_map.mpr ⟨m, List.mem_reverse.mpr (List.mem_filter.mpr ?_), rfl⟩
  exact ⟨Array.mem_toList_iff.mpr there, List.contains_iff_mem.mpr own⟩

theorem mem_below_of_child {base : Ancestor} {id : ModelId} {depth : Nat}
    (child : id ∈ c.children base) : id ∈ c.below (depth + 1) base :=
  List.mem_flatMap.mpr ⟨id, child, .head _⟩

/-- What is below is still below further down, and so are the classes on top of it. -/
theorem mem_below_succ {base : Ancestor} {id : ModelId} {depth : Nat}
    (h : id ∈ c.below depth base) :
    id ∈ c.below (depth + 1) base ∧
      ∀ other ∈ c.children (.model id), other ∈ c.below (depth + 1) base := by
  induction depth generalizing base with
  | zero => cases h
  | succ depth ih =>
    obtain ⟨child, there, h⟩ := List.mem_flatMap.mp h
    have within : ∀ other ∈ c.below (depth + 1) (.model child), other ∈ c.below (depth + 2) base :=
      fun other below => List.mem_flatMap.mpr ⟨child, there, .tail _ below⟩
    rcases List.mem_cons.mp h with rfl | h
    · exact ⟨mem_below_of_child there, fun other own => within other (mem_below_of_child own)⟩
    · obtain ⟨deeper, above⟩ := ih h
      exact ⟨within id deeper, fun other own => within other (above other own)⟩

theorem mem_below_of_le {base : Ancestor} {id : ModelId} {depth deeper : Nat}
    (h : id ∈ c.below depth base) (le : depth ≤ deeper) : id ∈ c.below deeper base := by
  induction le with
  | refl => exact h
  | step _ ih => exact (mem_below_succ ih).1

/-- A class lies below the root, no deeper than its number. -/
theorem Grounded.mem_below (h : c.Grounded) (id : ModelId) :
    ∀ m, c.model? id = some m → id ∈ c.below (id + 1) .root := by
  induction id using Nat.strongRecOn with
  | _ id ih =>
    intro m found
    have there : m ∈ c.models := Array.mem_of_getElem? found
    obtain ⟨base, own, early⟩ := h.based id m found
    have child := mem_children there own
    rw [h.numbered id m found] at child
    rcases early with rfl | ⟨j, lt, rfl⟩
    · exact mem_below_of_child child
    · obtain ⟨inside, -⟩ := Array.getElem?_eq_some_iff.mp found
      obtain ⟨under, earlier⟩ : ∃ under, c.model? j = some under :=
        ⟨_, Array.getElem?_eq_getElem (Nat.lt_trans lt inside)⟩
      exact mem_below_of_le ((mem_below_succ (ih j lt _ earlier)).2 id child) (by omega)

/-- Names are looked up among all models, and among nothing else. -/
theorem Defined.mem_lookupOrder (h : c.Defined) : m ∈ c.lookupOrder ↔ m ∈ c.models := by
  have grounded := h.grounded
  unfold lookupOrder
  rw [List.mem_filterMap]
  constructor
  · rintro ⟨id, -, found⟩
    exact Array.mem_of_getElem? found
  · intro there
    refine ⟨m.id, List.mem_eraseDups.mpr ?_, grounded.mem there⟩
    have below := grounded.mem_below m.id m (grounded.mem there)
    exact mem_below_of_le below (Nat.succ_le_succ (Nat.le_of_lt (grounded.id_lt there)))

end Catalog

end Relata
