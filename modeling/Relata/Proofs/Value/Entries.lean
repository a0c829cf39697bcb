import Relata.Proofs.Loading.Matching

/-!
Entries under keys: what stands under a key after an entry is put in or taken out, under that key or
under another one.
-/

namespace Relata

namespace Value

open Matches (same_iff_of_same not_same_of_not_same lookup?_append lookup?_eq_none_iff)

theorem exists_of_lookup? {α : Type} {key : Value} {entries : List (Value × α)} {a : α}
    (h : lookup? key entries = some a) : ∃ k, (k, a) ∈ entries ∧ key.same k = true := by
  induction entries with
  | nil => cases h
  | cons e rest ih =>
    unfold lookup? at h
    split at h
    · next same => exact ⟨e.1, Option.some.inj h ▸ .head _, same⟩
    · obtain ⟨k, there, same⟩ := ih h
      exact ⟨k, .tail _ there, same⟩

theorem mem_of_lookup? {α : Type} {key : Value} {entries : List (Value × α)} {a : α}
    (h : lookup? key entries = some a) : ∃ e ∈ entries, e.2 = a := by
  obtain ⟨k, there, -⟩ := exists_of_lookup? h
  exact ⟨(k, a), there, rfl⟩

/-- A key that finds the entries another one finds, and those that are filed under it. -/
structure Twin (k key : Value) : Prop where
  agree : ∀ v, k.same v = key.same v
  own : k.same k = true

namespace Twin

variable {α : Type} {k key : Value}

theorem refl (own : key.same key = true) : Twin key key := ⟨fun _ => rfl, own⟩

theorem of_same (hk : k.isKey = true) (hkey : key.isKey = true) (equal : k.same key = true) :
    Twin k key :=
  ⟨fun _ => same_iff_of_same hk hkey equal, same_trans hk equal (same_symm hk equal)⟩

theorem lookup? (h : Twin k key) (m : List (Value × α)) : lookup? k m = lookup? key m := by
  induction m with
  | nil => rfl
  | cons e rest ih => rw [Value.lookup?, Value.lookup?, h.agree, ih]

end Twin

variable {α : Type} {k key : Value}

/-- What is taken out is found no more. -/
theorem lookup?_drop_own (m : List (Value × α)) : lookup? key (drop m key) = none := by
  refine lookup?_eq_none_iff.mpr fun e there => ?_
  simpa using (List.mem_filter.mp there).2

variable (hk : k.isKey = true) (hkey : key.isKey = true)
include hk hkey

theorem lookup?_drop (m : List (Value × α)) :
    lookup? k (drop m key) = if k.same key then none else lookup? k m := by
  unfold drop
  induction m with
  | nil => simp [lookup?]
  | cons e m ih =>
    by_cases equal : k.same key = true
    · have agree : k.same e.1 = key.same e.1 := same_iff_of_same hk hkey equal
      by_cases here : key.same e.1 = true
      · simpa [here, equal] using ih
      · simpa [here, equal, lookup?, agree] using ih
    · by_cases here : key.same e.1 = true
      · have apart : k.same e.1 = false := by
          refine Bool.eq_false_iff.mpr fun own => equal ?_
          exact same_trans hk own (same_symm hkey here)
        simpa [here, equal, lookup?, apart] using ih
      · simp only [here, Bool.not_false, List.filter_cons_of_pos, lookup?]
        rw [ih]
        simp [equal]

theorem lookup?_put (m : List (Value × α)) (a : α) :
    lookup? k (put m key a) = if k.same key then some a else lookup? k m := by
  have replaced (m : List (Value × α)) :
      lookup? k (m.map fun e => if key.same e.1 then (e.1, a) else e) =
        (lookup? k m).map fun old => if k.same key then a else old := by
    induction m with
    | nil => rfl
    | cons e m ih =>
      by_cases here : k.same e.1 = true
      · by_cases equal : k.same key = true
        · have own : key.same e.1 = true := (same_iff_of_same hk hkey equal).symm.trans here
          simp [lookup?, own, here, equal]
        · have own := not_same_of_not_same hk hkey (Bool.eq_false_of_not_eq_true equal) here
          simp [lookup?, own, here, equal]
      · have passed : k.same (if key.same e.1 = true then (e.1, a) else e).1 = false := by
          split <;> simpa using here
        rw [List.map_cons, lookup?, passed, lookup?, Bool.eq_false_of_not_eq_true here]
        exact ih
  unfold put
  split
  · next there =>
    rw [replaced]
    cases found : lookup? k m with
    | some old => split <;> simp_all
    | none =>
      obtain ⟨e, he, own⟩ := List.any_eq_true.mp there
      by_cases equal : k.same key = true
      · rw [← same_iff_of_same hk hkey equal, lookup?_eq_none_iff.mp found e he] at own
        cases own
      · simp [equal]
  · next fresh =>
    rw [lookup?_append]
    by_cases equal : k.same key = true
    · have none : lookup? k m = none := lookup?_eq_none_iff.mpr fun e he => by
        rw [same_iff_of_same hk hkey equal]
        simpa using fun own => fresh (List.any_eq_true.mpr ⟨e, he, own⟩)
      simp [none, lookup?, equal]
    · simp [lookup?, equal]

end Value

end Relata
