import Relata.Registry.Marks

/-!
What marking adds. Rows that are touched move, rows that are too many are dropped; no more is marked
than the names given, and only on the row given. If the limit is no number below zero, marking does
not fail.
-/

namespace Relata

namespace Marks

variable {m : Marks} {key k : RowKey} {name : Value}

/-- A row with that key is marked with a name. -/
def Marked (m : Marks) (key : RowKey) (name : Value) : Prop :=
  ∃ own ∈ m.rows, own.key.same key = true ∧ own.names.any name.same = true

/-- A number that is not below zero. -/
def IsLimit (limit : Value) : Prop := limit.isBelow? 0 = some false

theorem IsLimit.isSome {limit : Value} (h : IsLimit limit) (i : Int) :
    (limit.isBelow? i).isSome = true := by
  cases limit with
  | bool _ | int _ | float _ => rfl
  | _ => cases h

theorem mem_of_find? {own : Mark} (h : m.find? key = some own) :
    own ∈ m.rows ∧ own.key.same key = true := by
  unfold find? at h
  exact ⟨List.mem_of_find?_eq_some h, by simpa using List.find?_some h⟩

/-- Asking leaves the rows that there are. -/
theorem mem_rows_isLoaded {names : Names} {row : Mark} (h : row ∈ (m.isLoaded k names).1.rows) :
    row ∈ m.rows := by
  unfold isLoaded at h
  split at h
  · exact h
  · split at h
    · exact h
    · next own found =>
      rcases List.mem_append.mp h with old | last
      · exact (List.mem_filter.mp old).1
      · exact List.mem_singleton.mp last ▸ (mem_of_find? found).1

/-- Asking changes no mark. -/
theorem marked_of_isLoaded {names : Names} (h : (m.isLoaded k names).1.Marked key name) :
    m.Marked key name := h.imp fun _ own => ⟨mem_rows_isLoaded own.1, own.2⟩

@[simp] theorem limit_isLoaded (m : Marks) (k : RowKey) (names : Names) :
    (m.isLoaded k names).1.limit = m.limit := by
  unfold isLoaded
  split
  · rfl
  · split <;> rfl

/-- Names that are none of them an error are all taken. -/
theorem mapM_ok (names : List Value) :
    names.mapM (fun name => (Except.ok name : Except Error Value)) = .ok names := by
  simpa [pure, Except.pure] using List.mapM_pure (m := Except Error) (l := names) (f := id)

/-- A row that lacks one of the names is not known to have them loaded. -/
theorem isLoaded_of_lacks {names : List Value} (some_ : key.id.isNull = false)
    (lacks : ∃ n ∈ names, ¬ m.Marked key n) :
    (m.isLoaded key (names.map .ok)).2 = .ok false := by
  obtain ⟨n, there, unmarked⟩ := lacks
  unfold isLoaded
  rw [some_]
  cases found : m.find? key with
  | none => rfl
  | some own =>
    have missing : own.names.any n.same = false := by
      refine Bool.eq_false_iff.mpr fun marked => unmarked ?_
      exact ⟨own, (mem_of_find? found).1, (mem_of_find? found).2, marked⟩
    have some_missing : (names.all fun n => own.names.any n.same) = false :=
      List.all_eq_false.mpr ⟨n, there, by simp [missing]⟩
    simp [mapM_ok, some_missing, Except.map]

theorem add_ok (there names : List Value) : (add there (names.map .ok)).2 = .ok () := by
  induction names generalizing there with
  | nil => rfl
  | cons n rest ih => exact ih _

/-- What is taken in is named. -/
theorem mem_of_mem_add {there names : List Value} {v : Value}
    (h : v ∈ (add there (names.map .ok)).1) : v ∈ there ∨ v ∈ names := by
  induction names generalizing there with
  | nil => exact .inl h
  | cons n rest ih =>
    rcases ih h with old | new
    · split at old
      · exact .inl old
      · rcases List.mem_append.mp old with older | own
        · exact .inl older
        · exact .inr (List.mem_singleton.mp own ▸ .head _)
    · exact .inr (.tail _ new)

theorem mem_of_mem_evict {limit : Value} {rows : List Mark} {row : Mark}
    (h : row ∈ (evict limit rows).1) : row ∈ rows := by
  induction rows with
  | nil =>
    unfold evict at h
    split at h <;> cases h
  | cons own rest ih =>
    unfold evict at h
    split at h
    · exact h
    · exact .tail _ (ih h)
    · exact h

theorem evict_ok {limit : Value} (h : IsLimit limit) (rows : List Mark) :
    (evict limit rows).2 = .ok () := by
  induction rows with
  | nil =>
    rw [evict, show limit.isBelow? 0 = some false from h]
  | cons own rest ih =>
    unfold evict
    split
    · next none =>
      have some_ := h.isSome (rest.length + 1 : Nat)
      rw [none] at some_
      cases some_
    · exact ih
    · rfl

/-- Where a row of marks comes from after one has been marked: it was there, or it is that one, with no
more than the names given beside those that stood under an equal row. -/
theorem mem_rows_mark {names : List Value} {row : Mark} (h : row ∈ (m.mark k (names.map .ok)).1.rows) :
    row ∈ m.rows ∨ (row.key = k ∧ ∀ v ∈ row.names, v ∈ names) ∨
      ∃ own ∈ m.rows, own.key.same k = true ∧ row.key = own.key ∧
        ∀ v ∈ row.names, v ∈ own.names ∨ v ∈ names := by
  unfold mark at h
  split at h
  · exact .inl h
  · dsimp only at h
    rw [add_ok] at h
    rcases List.mem_append.mp (mem_of_mem_evict h) with old | last
    · exact .inl (List.mem_filter.mp old).1
    · obtain rfl := List.mem_singleton.mp last
      cases found : m.find? k with
      | none =>
        refine .inr (.inl ⟨rfl, fun v hv => ?_⟩)
        exact (mem_of_mem_add hv).resolve_left List.not_mem_nil
      | some own =>
        obtain ⟨there, same⟩ := mem_of_find? found
        exact .inr (.inr ⟨own, there, same, rfl, fun v hv => mem_of_mem_add hv⟩)

/-- Marking adds no more than the names given, on rows that are equal to the one given or to one that
stands for it. -/
theorem marked_or_named {names : List Value} (h : (m.mark k (names.map .ok)).1.Marked key name) :
    m.Marked key name ∨ names.any name.same = true ∧ (k.same key = true ∨
      ∃ own ∈ m.rows, own.key.same k = true ∧ own.key.same key = true) := by
  obtain ⟨row, there, same, marked⟩ := h
  obtain ⟨v, hv, equal⟩ := List.any_eq_true.mp marked
  rcases mem_rows_mark there with old | ⟨rfl, given⟩ | ⟨own, old, stands, sameKey, given⟩
  · exact .inl ⟨row, old, same, marked⟩
  · exact .inr ⟨List.any_eq_true.mpr ⟨v, given v hv, equal⟩, .inl same⟩
  · rw [sameKey] at same
    rcases given v hv with before | new
    · exact .inl ⟨own, old, same, List.any_eq_true.mpr ⟨v, before, equal⟩⟩
    · exact .inr ⟨List.any_eq_true.mpr ⟨v, new, equal⟩, .inr ⟨own, old, stands, same⟩⟩

/-- Marking adds no more than the names given. -/
theorem marked_of_mark {names : List Value} (h : (m.mark k (names.map .ok)).1.Marked key name) :
    m.Marked key name ∨ names.any name.same = true := (marked_or_named h).imp_right And.left

@[simp] theorem limit_mark (m : Marks) (k : RowKey) (names : Names) :
    (m.mark k names).1.limit = m.limit := by
  unfold mark
  split
  · rfl
  · dsimp only
    split <;> rfl

/-- Marking does not fail. -/
theorem mark_ok (limit : IsLimit m.limit) (k : RowKey) (names : List Value) :
    (m.mark k (names.map .ok)).2 = .ok () := by
  unfold mark
  split
  · rfl
  · dsimp only
    rw [add_ok]
    exact evict_ok limit _

end Marks

end Relata
