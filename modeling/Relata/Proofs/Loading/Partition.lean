import Mathlib.Data.List.Induction
import Relata.Proofs.Loading.Demanded

/-!
How keys are cut into lists. Of the keys of all objects those that are not null are kept, each once: the
first one of those that are equal. What is kept is cut into lists of one size, of which only the last may
be shorter. Main statements: that the keys that a fetch asks for are those, in the order in which they are
first seen, and that they are cut so.
-/

namespace Relata

/-- Of the values that are not null each once: the first one of those that are equal. -/
structure FirstSeen (values kept : List Value) : Prop where
  sublist : kept.Sublist values
  present : ∀ k ∈ kept, k.isNull = false
  apart : kept.Pairwise fun a b => a.same b = false ∧ b.same a = false
  covers : ∀ v ∈ values, v.isNull = false → ∃ k ∈ kept, k = v ∨ v.same k = true
  first : ∀ k ∈ kept, ∃ before after, values = before ++ k :: after ∧
    ∀ v ∈ before, v.isNull = false → k.same v = false

namespace FirstSeen

variable {values kept : List Value} {v : Value}

/-- Nothing changes where the value is null or one that is equal to it was seen. -/
theorem skip (h : FirstSeen values kept)
    (seen : v.isNull = false → ∃ k ∈ kept, k = v ∨ v.same k = true) : FirstSeen (values ++ [v]) kept where
  sublist := h.sublist.trans (List.sublist_append_left ..)
  present := h.present
  apart := h.apart
  covers u there given := by
    rcases List.mem_append.mp there with before | last
    · exact h.covers u before given
    · obtain rfl := List.mem_singleton.mp last
      exact seen given
  first k there := by
    obtain ⟨before, after, rfl, other⟩ := h.first k there
    exact ⟨before, after ++ [v], by simp, other⟩

theorem keep (h : FirstSeen values kept) (given : v.isNull = false)
    (hash : ∀ u ∈ values ++ [v], u.isNull = false → u.isKey = true)
    (fresh : ∀ k ∈ kept, v.same k = false) : FirstSeen (values ++ [v]) (kept ++ [v]) where
  sublist := h.sublist.append (List.Sublist.refl _)
  present k there := by
    rcases List.mem_append.mp there with before | last
    · exact h.present k before
    · exact List.mem_singleton.mp last ▸ given
  apart := by
    refine List.pairwise_append.mpr ⟨h.apart, List.pairwise_singleton _ _, fun a there b last => ?_⟩
    obtain rfl := List.mem_singleton.mp last
    refine ⟨Bool.eq_false_iff.mpr fun equal => ?_, fresh a there⟩
    have key := hash a (List.mem_append_left _ (h.sublist.subset there)) (h.present a there)
    exact Bool.eq_false_iff.mp (fresh a there) (Value.same_symm key equal)
  covers u there given := by
    rcases List.mem_append.mp there with before | last
    · obtain ⟨k, there, same⟩ := h.covers u before given
      exact ⟨k, List.mem_append_left _ there, same⟩
    · exact ⟨v, by simp, .inl (List.mem_singleton.mp last).symm⟩
  first k there := by
    rcases List.mem_append.mp there with before | last
    · obtain ⟨earlier, after, rfl, other⟩ := h.first k before
      exact ⟨earlier, after ++ [v], by simp, other⟩
    · obtain rfl := List.mem_singleton.mp last
      refine ⟨values, [], rfl, fun u there some_ => Bool.eq_false_iff.mpr fun equal => ?_⟩
      obtain ⟨k', kept, rfl | same⟩ := h.covers u there some_
      · exact Bool.eq_false_iff.mp (fresh k' kept) equal
      · exact Bool.eq_false_iff.mp (fresh k' kept) (Value.same_trans (hash k (by simp) given) equal same)

end FirstSeen

theorem distinctKeys_concat (values : List Value) (v : Value) : distinctKeys (values ++ [v]) =
    if v.isNull then distinctKeys values else Value.addDistinct (distinctKeys values) v := by
  unfold distinctKeys Value.distinct Value.addDistinct
  cases null : v.isNull <;> simp [List.filter_append, null]

/-- The keys that are asked for are the first of those that are equal. -/
theorem firstSeen_distinctKeys {values : List Value}
    (hash : ∀ v ∈ values, v.isNull = false → v.isKey = true) : FirstSeen values (distinctKeys values) := by
  induction values using List.reverseRecOn with
  | nil => constructor <;> simp [distinctKeys, Value.distinct]
  | append_singleton values v ih =>
    have own := ih fun u there => hash u (List.mem_append_left _ there)
    rw [distinctKeys_concat, Value.addDistinct]
    split
    · next null => exact own.skip fun given => absurd null (by simp [given])
    · next given =>
      rw [Bool.not_eq_true] at given
      split
      · next seen =>
        obtain ⟨k, there, same⟩ := List.any_eq_true.mp seen
        exact own.skip fun _ => ⟨k, there, .inr same⟩
      · next fresh => exact own.keep given hash (by simpa using fresh)

/-- The values cut into lists of one size, of which only the last may be shorter. -/
structure Partition (size : Nat) (values : List Value) (lists : List (List Value)) : Prop where
  flatten : lists.flatten = values
  nonempty : ∀ l ∈ lists, l ≠ []
  bounded : ∀ l ∈ lists, l.length ≤ size
  full : ∀ l ∈ lists.dropLast, l.length = size
  count : lists.length = (values.length + size - 1) / size

/-- No key of one list is equal to one of another list. -/
theorem Partition.disjoint {size : Nat} {values kept : List Value} {lists : List (List Value)}
    (h : Partition size kept lists) (seen : FirstSeen values kept) :
    lists.Pairwise fun a b => ∀ v ∈ a, ∀ u ∈ b, v.same u = false ∧ u.same v = false := by
  have apart := seen.apart
  rw [← h.flatten] at apart
  exact (List.pairwise_flatten.mp apart).2

theorem length_pieces (more : Nat) (values : List Value) :
    (pieces more values).length = (values.length + more) / (more + 1) := by
  fun_induction pieces more values with
  | case1 => exact (Nat.div_eq_of_lt (by simp)).symm
  | case2 v rest ih =>
    rw [List.length_cons, ih, List.length_drop, List.length_cons]
    by_cases longer : more ≤ rest.length
    · rw [Nat.sub_add_cancel longer, ← Nat.add_div_right _ (Nat.succ_pos more)]
      congr 1
      omega
    · rw [Nat.sub_eq_zero_of_le (by omega), Nat.zero_add, Nat.div_eq_of_lt (Nat.lt_succ_self more)]
      refine (Nat.div_eq_of_lt_le ?_ ?_).symm <;> omega

theorem partition_pieces (more : Nat) (values : List Value) :
    Partition (more + 1) values (pieces more values) where
  flatten := flatten_pieces more values
  nonempty _ := Loader.ne_nil_of_mem_pieces
  bounded := by
    fun_induction pieces more values with
    | case1 => simp
    | case2 v rest ih =>
      refine List.forall_mem_cons.mpr ⟨?_, ih⟩
      rw [List.length_cons, List.length_take]
      omega
  full := by
    fun_induction pieces more values with
    | case1 => simp
    | case2 v rest ih =>
      cases later : pieces more (rest.drop more) with
      | nil => simp
      | cons l others =>
        rw [List.dropLast_cons_cons]
        rw [later] at ih
        refine List.forall_mem_cons.mpr ⟨?_, ih⟩
        have longer : more < rest.length := by
          by_contra short
          rw [List.drop_eq_nil_of_le (not_lt.mp short), pieces] at later
          cases later
        rw [List.length_cons, List.length_take, Nat.min_eq_left longer.le]
  count := length_pieces more values

end Relata
