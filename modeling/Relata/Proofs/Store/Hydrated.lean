import Relata.Proofs.Loading.Matching
import Relata.Store.Entity

/-!
What becomes of a column when an object is made of a row. A column that the model does not declare is
kept as it is; a dictionary is no value of any type but the one that takes everything, so it is kept
as it is too.
-/

namespace Relata

/-- No type but the one that takes everything reads a dictionary. -/
theorem FieldType.eq_of_read_dict {t : FieldType} {d : List (Value × Value)} {v : Value}
    (h : t.read (.dict d) = .ok v) : v = .dict d := by
  obtain ⟨scalar, nullable⟩ := t
  have plain : (nullable && (Value.dict d).isNull) = false := Bool.and_false nullable
  rw [FieldType.read, plain] at h
  cases scalar with
  | any =>
    cases h
    rfl
  | _ => cases h

theorem lookup_filter_key {α β : Type} [BEq α] [LawfulBEq α] (p : α → Bool)
    (entries : List (α × β)) (a : α) :
    (entries.filter fun e => p e.1).lookup a = if p a then entries.lookup a else none := by
  induction entries with
  | nil => simp
  | cons e rest ih =>
    obtain ⟨k, v⟩ := e
    by_cases same : a = k
    · subst same
      rw [List.filter_cons]
      cases kept : p a
      · simpa [kept] using ih
      · rw [if_pos rfl, if_pos rfl, List.lookup_cons_self, List.lookup_cons_self]
    · have apart : (a == k) = false := beq_false_of_ne same
      rw [List.filter_cons]
      split <;> simp [List.lookup_cons, apart, ih]

/-- The columns with a text for a name are found by that text. -/
theorem lookup_texts (row : List (Value × Value)) (name : String) :
    (row.filterMap fun (key, v) => key.asText?.map (·, v)).lookup name =
      Value.lookup? (.text name) row := by
  induction row with
  | nil => rfl
  | cons entry rest ih =>
    obtain ⟨key, v⟩ := entry
    rw [Value.lookup?, ← ih]
    cases key with
    | text t =>
      have same : (Value.text name).same (.text t) = (name == t) := rfl
      rw [same]
      cases equal : name == t <;> simp [Value.asText?, List.lookup_cons, equal]
    | _ => rfl

/-- What an object has under the name of a column, declared or not. -/
def Entity.column? (e : Entity) (name : String) : Option Value :=
  (e.fields.lookup name).or (e.extra.lookup name)

namespace Model

variable {m : Model} {row : List (Value × Value)} {e : Entity} {name : String}

/-- A field as the model reads it from the columns. -/
def fieldOf (named : Row) (f : Field) : Except Fault Value :=
  match named.lookup f.name, f.default with
  | some v, _ => f.type.read v
  | none, some v => .ok v
  | none, none => .error .missing

theorem lookup_fields {fields : List Field} {named : Row} {d : List (Value × Value)}
    (fine : ∀ f ∈ fields, ∃ v, fieldOf named f = .ok v) (found : named.lookup name = some (.dict d)) :
    (fields.filterMap fun f => (fieldOf named f).toOption.map (f.name, ·)).lookup name =
      if fields.any (·.name == name) then some (.dict d) else none := by
  induction fields with
  | nil => rfl
  | cons f rest ih =>
    obtain ⟨v, read⟩ := fine f (.head _)
    rw [List.filterMap_cons, read, List.any_cons]
    change ((f.name, v) :: _).lookup name = _
    rw [List.lookup_cons]
    by_cases same : f.name = name
    · have kept : v = .dict d := by
        rw [fieldOf, same, found] at read
        exact FieldType.eq_of_read_dict read
      simp [same, kept]
    · rw [ih fun f there => fine f (.tail _ there)]
      simp [same, beq_false_of_ne (Ne.symm same)]

/-- What there is to say of a field whose value cannot be read. -/
def issueOf (f : Field) : Except Fault Value → Option Issue
  | .error fault => some ⟨[f.name], fault⟩
  | .ok _ => none

/-- What the object is, of which the model has nothing to complain. -/
theorem eq_of_hydrate (h : m.hydrate row = .ok e) :
    let named : Row := row.filterMap fun (key, v) => key.asText?.map (·, v)
    (∀ f ∈ m.fields, ∃ v, fieldOf named f = .ok v) ∧
      e.fields = m.fields.filterMap (fun f => (fieldOf named f).toOption.map (f.name, ·)) ∧
      e.extra = named.filter fun e => (m.field? e.1).isNone := by
  unfold hydrate at h
  dsimp only at h
  split at h
  · next fine =>
    cases h
    refine ⟨fun f there => ?_, ?_, rfl⟩
    · cases read : fieldOf _ f with
      | ok v => exact ⟨v, rfl⟩
      | error fault =>
        have issues := List.isEmpty_iff.mp ((Bool.and_eq_true ..).mp fine).1
        rw [List.filterMap_map, List.filterMap_eq_nil_iff] at issues
        have passed : issueOf f (fieldOf _ f) = none := issues f there
        rw [read] at passed
        cases passed
    · rw [List.filterMap_map]
      rfl
  · cases h

/-- A dictionary is kept under its name, whether the model declares it or not. -/
theorem column?_of_hydrate {d : List (Value × Value)} (h : m.hydrate row = .ok e)
    (found : Value.lookup? (.text name) row = some (.dict d)) : e.column? name = some (.dict d) := by
  obtain ⟨fine, fields, extra⟩ := eq_of_hydrate h
  rw [← lookup_texts] at found
  rw [Entity.column?, fields, lookup_fields fine found, extra,
    lookup_filter_key fun name => (m.field? name).isNone]
  cases declared : m.fields.any (·.name == name) with
  | true => rfl
  | false =>
    have unknown : (m.field? name).isNone = true := by
      rw [field?, Option.isNone_iff_eq_none, List.find?_eq_none]
      simpa using declared
    simp [unknown, found]

/-- What a row does not have is none of the columns that the model does not declare. -/
theorem lookup_extra_of_hydrate (h : m.hydrate row = .ok e)
    (none_ : Value.lookup? (.text name) row = none) : e.extra.lookup name = none := by
  obtain ⟨-, -, extra⟩ := eq_of_hydrate h
  rw [extra, lookup_filter_key fun name => (m.field? name).isNone, lookup_texts, none_, ite_self]

end Model

end Relata
